import FileNaming.Text.Segments

/-! Passwords are masked in any text, well formed or not: between separators, a
piece that follows an empty piece is taken for an authority, and what stands
between its first colon and its last `@` is replaced. -/

namespace FileNaming.Uri

def placeholder : Text := ['*', '*', '*']

def veil (piece : Text) : Text :=
  match Text.cutLast '@' piece with
  | none => piece
  | some (info, host) =>
    match Text.cutFirst ':' info with
    | none => piece
    | some (user, _) => user ++ ':' :: placeholder ++ '@' :: host

def veilPieces : List Text → List Text
  | [] => []
  | [] :: piece :: rest => [] :: veil piece :: veilPieces rest
  | piece :: rest => piece :: veilPieces rest

def mask (t : Text) : Text :=
  match Text.split '/' t with
  | [] => []
  | first :: rest => Text.join '/' (first :: veilPieces rest)

end FileNaming.Uri
