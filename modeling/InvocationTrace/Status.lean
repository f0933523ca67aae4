/-!
# Statuses

A run or an invocation reports its end with a status in free text. Only one status is a success.
-/

namespace InvocationTrace.Status

/-- The status of what has not reported an end. -/
def running : String := "running"

def success : String := "success"

/-- Any other status than success is a failure; no status is neither. -/
def isFailure : Option String → Bool
  | none => false
  | some status => status != success

def isSuccess (status : Option String) : Bool := status == some success

theorem not_isFailure_of_isSuccess {status : Option String} (h : isSuccess status = true) :
    isFailure status = false := by
  cases status <;> simp_all [isSuccess, isFailure]

end InvocationTrace.Status
