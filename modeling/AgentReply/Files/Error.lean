/-!
# File errors

Why a file cannot be read or written, in the words of the system.
-/

namespace AgentReply

inductive FileError where
  | missing
  | denied
  | present
  | notFolder
  | isFolder
  | nameTooLong
  /-- A name holds the null character. -/
  | nullInName
  /-- The content is not UTF-8. -/
  | notText
  | other (code : Nat) (text : String)
deriving DecidableEq, Repr

namespace FileError

def numbered (code : Nat) (text : String) : String := s!"{text} (os error {code})"

def message : FileError → String
  | .missing => numbered 2 "No such file or directory"
  | .denied => numbered 13 "Permission denied"
  | .present => numbered 17 "File exists"
  | .notFolder => numbered 20 "Not a directory"
  | .isFolder => numbered 21 "Is a directory"
  | .nameTooLong => numbered 36 "File name too long"
  | .nullInName => "file name contained an unexpected NUL byte"
  | .notText => "stream did not contain valid UTF-8"
  | .other code text => numbered code text

def ofNumber (code : Nat) (text : String) : FileError :=
  match code with
  | 2 => .missing
  | 13 => .denied
  | 17 => .present
  | 20 => .notFolder
  | 21 => .isFolder
  | 36 => .nameTooLong
  | code => .other code text

end FileError
end AgentReply
