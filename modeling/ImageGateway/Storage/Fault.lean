import ImageGateway.Storage.FilePath

/-!
# What can go wrong with files

`Fault` lists the ways in which an operation on the file tree can fail, `Error` says what that means
for a request to the archive of images.
-/

namespace ImageGateway.Storage

/-- Why an operation on the file tree failed. -/
inductive Fault where
  | notFound
  | exists
  | notADirectory
  | isADirectory
  | nameTooLong
  | tooManyLinks
  | nulInPath
  /-- Only regular files are copied. -/
  | copiedFromNonFile
  /-- Something else sits where the ledger of a project belongs. -/
  | ledgerNotAFile
  deriving DecidableEq, Repr

/-- The text of a fault. -/
def Fault.message : Fault → String
  | .notFound => "No such file or directory (os error 2)"
  | .exists => "File exists (os error 17)"
  | .notADirectory => "Not a directory (os error 20)"
  | .isADirectory => "Is a directory (os error 21)"
  | .nameTooLong => "File name too long (os error 36)"
  | .tooManyLinks => "Too many levels of symbolic links (os error 40)"
  | .nulInPath => "file name contained an unexpected NUL byte"
  | .copiedFromNonFile =>
    "the source path is neither a regular file nor a symlink to a regular file"
  | .ledgerNotAFile => "ledger path is not a regular file"

/-- Why a request to the archive failed. -/
inductive Error where
  /-- An operation on a file failed. -/
  | io (path : FilePath) (fault : Fault)
  /-- A document could not be written or read. -/
  | serialization (cause : String)
  /-- No number is left above the largest one in use. -/
  | idsExhausted (last : UInt64)
  deriving DecidableEq, Repr

/-- The message of an error. -/
def Error.message : Error → String
  | .io path fault => "I/O error at " ++ path.text ++ ": " ++ fault.message
  | .serialization cause => "Serialization error: " ++ cause
  | .idsExhausted last => "Record IDs exhausted: ledger already holds ID " ++ toString last.toNat

/-- The message of an error followed by that of its cause. -/
def Error.chain : Error → List String
  | .io path fault => [(Error.io path fault).message, fault.message]
  | .serialization cause => [(Error.serialization cause).message, cause]
  | .idsExhausted last => [(Error.idsExhausted last).message]

end ImageGateway.Storage
