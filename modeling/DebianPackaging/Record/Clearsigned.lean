import DebianPackaging.Text.Basic

namespace DebianPackaging.Clearsigned

open Text

def messageHeader : Text := "-----BEGIN PGP SIGNED MESSAGE-----"

def signatureHeader : Text := "-----BEGIN PGP SIGNATURE-----"

def isSigned (t : Text) : Bool :=
  (lines t).head?.any fun line => trim line = messageHeader

/-- Lines that start with a hyphen are signed with a hyphen and a space before them. -/
def unescape (line : Text) : Text :=
  if ['-', ' '].isPrefixOf line then line.drop 2 else line

def body? (ls : List Text) : Option (List Text) :=
  match ls.dropWhile (!isBlankText ·) with
  | [] => none
  | _ :: body =>
      if body.contains signatureHeader then some (body.takeWhile (· != signatureHeader)) else none

/-- The signed text, or the whole text if it is not signed; nothing if the armor is incomplete. -/
def contents? (t : Text) : Option Text :=
  if isSigned t then
    (body? (lines t)).map fun body => join "\n" (body.map unescape) ++ ['\n']
  else
    some t

end DebianPackaging.Clearsigned
