import InvocationTrace.Event.Decode
import InvocationTrace.Json.Parser
import InvocationTrace.Text.Lines
import InvocationTrace.Text.Utf8

/-!
# Logs

A log holds one event a line. A line that is blank, is not JSON or is not an object holds none, and
the lines after it keep their numbers.
-/

namespace InvocationTrace

namespace Log

def eventOfLine? (line : Nat) (cs : List Char) : Option Event :=
  (Json.parse? (Text.trim cs)).bind (Event.ofJson? line)

/-- The events of a sequence of lines whose first has the number `first`. -/
def ofLines (first : Nat) (lines : List (List Char)) : Log :=
  (lines.zipIdx first).filterMap fun (cs, line) => eventOfLine? line cs

def ofText (cs : List Char) : Log := ofLines 1 (Text.lines cs)

/-- The events of a file's content, which need not be well-formed text. -/
def ofBytes (bytes : List UInt8) : Log := ofText (Text.decodeUtf8 bytes)

theorem ofLines_append (first : Nat) (xs ys : List (List Char)) :
    ofLines first (xs ++ ys) = ofLines first xs ++ ofLines (first + xs.length) ys := by
  simp [ofLines, List.zipIdx_append]

end Log

end InvocationTrace
