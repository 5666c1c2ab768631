import SimpleP2P.Library.Blocks

namespace SimpleP2P.Library

def AgreesOn (target image : List UInt8) (offset count : Nat) : Prop :=
  ∀ i, offset ≤ i → i < offset + count → target[i]? = image[i]?

variable {target target' image source content : List UInt8} {offset count start done size : Nat}

theorem agreesOn_zero (target image : List UInt8) (offset : Nat) : AgreesOn target image offset 0 := by
  intro i after before
  omega

theorem AgreesOn.memcpy (h : AgreesOn target image start count) (part : PartOf image offset source)
    (sameLength : target.length = image.length)
    (ok : Library.memcpy target offset source = .ok target') : AgreesOn target' image start count := by
  obtain ⟨next, copied, -, agrees⟩ := part.memcpy sameLength
  obtain rfl := Except.ok.inj (copied.symm.trans ok)
  exact fun i after before => agrees i (.inl (h i after before))

theorem AgreesOn.extend (h : AgreesOn target image start done)
    (part : PartOf image (start + done) source) (sameLength : target.length = image.length)
    (ok : Library.memcpy target (start + done) source = .ok target') :
    AgreesOn target' image start (done + source.length) := by
  obtain ⟨next, copied, -, agrees⟩ := part.memcpy sameLength
  obtain rfl := Except.ok.inj (copied.symm.trans ok)
  intro i after before
  rcases Nat.lt_or_ge i (start + done) with old | new
  · exact agrees i (.inl (h i after old))
  · exact agrees i (.inr ⟨new, by omega⟩)

theorem memcpy_length (ok : memcpy target offset source = .ok target') :
    target'.length = target.length := by
  obtain ⟨inside, rfl⟩ := memcpy_ok.mp ok
  simp only [List.length_append, List.length_take, List.length_drop]
  omega

theorem partOf_piece {i : Nat} (below : i < count) {piece : List UInt8}
    (fits : done + piece.length ≤ size)
    (same : piece = ((block size content i).drop done).take piece.length) :
    PartOf (padded (count * size) content) (i * size + done) piece := by
  obtain ⟨inside, whole⟩ : PartOf (padded (count * size) content) (i * size) (block size content i) :=
    partOf_block below
  rw [block_length] at inside whole
  refine ⟨by omega, fun k small => ?_⟩
  rw [same, List.getElem?_take_of_lt small, List.getElem?_drop, whole (done + k) (by omega)]
  congr 1
  omega

theorem eq_of_blocks (length : target.length = count * size) (fits : content.length ≤ count * size)
    (all : ∀ i < count, AgreesOn target (padded (count * size) content) (i * size) size) :
    target = padded (count * size) content := by
  have sameLength := padded_length fits
  apply List.ext_getElem?
  intro i
  rcases Nat.lt_or_ge i (count * size) with inside | outside
  · have positive : 0 < size := Nat.pos_of_mul_pos_left (Nat.zero_lt_of_lt inside)
    have chosen : i / size < count := (Nat.div_lt_iff_lt_mul positive).mpr inside
    have after := Nat.div_mul_le_self i size
    have before := Nat.lt_div_mul_add positive (a := i)
    exact all (i / size) chosen i after before
  · rw [List.getElem?_eq_none (by omega), List.getElem?_eq_none (by omega)]

end SimpleP2P.Library
