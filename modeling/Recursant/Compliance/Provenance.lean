import Recursant.Json

/-!
# Recorded public output

`provenance.c`: a bounded first-in first-out record of reasoning elements that public providers
were seen to produce, each as its compact key-sorted serialization.  The stored hash only speeds
the comparison of equal texts up and is left out.
-/

namespace Recursant

def provenanceElementMaxBytes : Nat := 64 * 1024

/-- The recorded texts, oldest first. -/
structure Provenance where
  ring : List Text
  capacity : Nat
  maxBytes : Nat
  deriving DecidableEq

namespace Provenance

/-- The text of one object element that is not too large. -/
def canonical (jansson : Jansson) (element : Json) : Option Text :=
  if element.isObject then
    (jansson.dumpsSorted element).filter (·.length ≤ provenanceElementMaxBytes)
  else none

def present (p : Provenance) (value : Text) : Bool := p.ring.contains value

def bytes (ring : List Text) : Nat := (ring.map List.length).sum

/-- Forgets the oldest values until one of `size` bytes fits. -/
def makeRoom (p : Provenance) (size : Nat) : List Text → List Text
  | [] => []
  | oldest :: ring =>
      if (oldest :: ring).length = p.capacity || bytes (oldest :: ring) + size > p.maxBytes then
        makeRoom p size ring
      else oldest :: ring

def addElement (jansson : Jansson) (p : Provenance) (element : Json) : Provenance :=
  match canonical jansson element with
  | none => p
  | some value =>
      if value.length > p.maxBytes || p.present value then p
      else { p with ring := makeRoom p value.length p.ring ++ [value] }

/-- `rc_provenance_add`. -/
def add (jansson : Jansson) (p : Provenance) : Json → Provenance
  | .array elements => elements.foldl (addElement jansson) p
  | _ => p

/-- `rc_provenance_known`: a nonempty array all of whose elements are recorded. -/
def known (jansson : Jansson) (p : Provenance) : Json → Bool
  | .array elements =>
      elements ≠ [] && elements.all fun element => (canonical jansson element).any p.present
  | _ => false

end Provenance

end Recursant
