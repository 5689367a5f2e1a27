/-!
# What can go wrong with files

The ways in which a file operation fails, and the texts that the operating system has for them.
-/

set_option autoImplicit false

namespace ScriptHost

/-- Why a file operation failed. -/
inductive DiskError where
  | notFound
  | busy
  | alreadyExists
  | notDirectory
  | isDirectory
  | nameTooLong
  /-- A path holds a character that no path may hold. -/
  | nulInPath
  /-- A file is no text. -/
  | notText
  /-- Any other failure, in the words of the system. -/
  | other (message : String)
deriving DecidableEq, Repr, Inhabited

/-- A text with the number that the system has for the failure. -/
def systemMessage (text : String) (number : Nat) : String :=
  s!"{text} (os error {number})"

/-- The text of a failure. -/
def DiskError.message : DiskError → String
  | .notFound => systemMessage "No such file or directory" 2
  | .busy => systemMessage "Device or resource busy" 16
  | .alreadyExists => systemMessage "File exists" 17
  | .notDirectory => systemMessage "Not a directory" 20
  | .isDirectory => systemMessage "Is a directory" 21
  | .nameTooLong => systemMessage "File name too long" 36
  | .nulInPath => "file name contained an unexpected NUL byte"
  | .notText => "stream did not contain valid UTF-8"
  | .other message => message

end ScriptHost
