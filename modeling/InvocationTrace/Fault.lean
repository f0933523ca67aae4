/-!
# Faults

What can keep a question about a log from being answered, and the words for it.
-/

namespace InvocationTrace

/-- Why a file that exists could not be read. -/
inductive ReadFailure where
  | isDirectory
  | notDirectory
  | nameTooLong
  | nulInName
  | other (text : String)
  deriving DecidableEq

def ReadFailure.message : ReadFailure → String
  | .isDirectory => "Is a directory (os error 21)"
  | .notDirectory => "Not a directory (os error 20)"
  | .nameTooLong => "File name too long (os error 36)"
  | .nulInName => "file name contained an unexpected NUL byte"
  | .other text => text

inductive Fault where
  | traceFileNotFound (path : String)
  | unreadable (path : String) (failure : ReadFailure)
  | rootNotFound (rootId : String)
  | noMatchingRoots
  | sumOverflow
  | differenceOverflow
  deriving DecidableEq

def Fault.message : Fault → String
  | .traceFileNotFound path => "trace file not found: " ++ path
  | .unreadable path failure => "i/o error on " ++ path ++ ": " ++ failure.message
  | .rootNotFound rootId => "root invocation not found: " ++ rootId
  | .noMatchingRoots => "no matching root invocations found"
  | .sumOverflow => "attempt to add with overflow"
  | .differenceOverflow => "attempt to subtract with overflow"

/-- Whether a time left the 64-bit range. -/
def Fault.isOverflow : Fault → Bool
  | .sumOverflow | .differenceOverflow => true
  | _ => false

end InvocationTrace
