import AssetPack.Files.FileSystem
import AssetPack.Proofs.Fingerprint
import AssetPack.Proofs.Text.Utf8Decode
import Mathlib.Data.List.TakeWhile

/-!
# Marker lines

The marker in the first line of a class tells the fingerprint that it was made for, kind and
digest; and it is found there again, since it is text of the first 128 characters without a line
feed, whatever the class goes on with.

It is found nowhere else. The first line of a file is read with replacement characters, and so
tells little about its bytes; but where it comes out as a marker, which has no such character,
nothing was replaced, and the bytes are those of the marker up to the first line feed or to the
end (`firstLineOf_eq_iff`).
-/

set_option autoImplicit false

namespace AssetPack

open Text

/-! ## First lines -/

/-- A character that is one byte, and ends no line. -/
def IsPlainByte (c : Char) : Prop := c.toNat < 0x80 ∧ c ≠ '\n'

instance (c : Char) : Decidable (IsPlainByte c) := inferInstanceAs (Decidable (_ ∧ _))

theorem lf_ne_toUInt8 {c : Char} (hc : IsPlainByte c) : c.toNat.toUInt8 ≠ 0x0A := by
  intro h
  have hnat : c.toNat = 0x0A := by rw [← Utf8.toNat_toUInt8 hc.1, h]; rfl
  exact hc.2 (Char.toNat_inj.mp hnat)

namespace FileSystem

/-- The first line of a file is a given one just if the file is that line, or goes on after it with
a line feed. -/
theorem firstLineOf_eq_iff {line : List Char} (hline : ∀ c ∈ line, IsPlainByte c)
    {bytes : List UInt8} :
    firstLineOf bytes = line ↔
      bytes = Utf8.encode line ∨ ∃ rest, bytes = Utf8.encode line ++ 0x0A :: rest := by
  have hshown : '\ufffd' ∉ line := fun hmem => absurd (hline _ hmem).1 (by decide)
  have hpass : ∀ b ∈ Utf8.encode line, (b != 0x0A) = true := by
    intro b hb
    rw [Utf8.encode_ascii fun c hc => (hline c hc).1] at hb
    obtain ⟨c, hc, rfl⟩ := List.mem_map.mp hb
    exact bne_iff_ne.mpr (lf_ne_toUInt8 (hline c hc))
  rw [firstLineOf, Utf8.decodeLossy_eq_iff hshown]
  constructor
  · intro htake
    have hcut := List.takeWhile_append_dropWhile (p := (· != 0x0A)) (l := bytes)
    have hstop := List.head?_dropWhile_not (· != 0x0A) bytes
    rw [htake] at hcut
    cases hrest : bytes.dropWhile (· != 0x0A) with
    | nil =>
      rw [hrest, List.append_nil] at hcut
      exact .inl hcut.symm
    | cons b rest =>
      rw [hrest] at hcut hstop
      obtain rfl : b = 0x0A := by simpa using hstop
      exact .inr ⟨rest, hcut.symm⟩
  · rintro (rfl | ⟨rest, rfl⟩)
    · exact List.takeWhile_eq_self_iff.mpr hpass
    · rw [List.takeWhile_append_of_pos hpass, List.takeWhile_cons_of_neg (by decide),
        List.append_nil]

/-- What stands before the first line feed is read as it was written. -/
theorem firstLineOf_encode {line : List Char} (hline : ∀ c ∈ line, IsPlainByte c)
    (rest : List Char) : firstLineOf (Utf8.encode (line ++ '\n' :: rest)) = line := by
  refine (firstLineOf_eq_iff hline).mpr (.inr ⟨Utf8.encode rest, ?_⟩)
  rw [Utf8.encode_append, Utf8.encode_cons]
  rfl

end FileSystem

/-! ## Markers -/

namespace Fingerprint

theorem toList_markerLine (f : Fingerprint) : f.markerLine.toList =
    "// ".toList ++ (f.kind.label.toList ++ (" hash: ".toList ++ f.hex.toList)) := by
  simp [markerLine, toString]

/-- The marker tells kind and digest. -/
theorem markerLine_injective {f g : Fingerprint} (h : f.markerLine = g.markerLine) : f = g := by
  obtain ⟨kind, hex⟩ := f
  obtain ⟨kind', hex'⟩ := g
  have hlines := congrArg String.toList h
  rw [toList_markerLine, toList_markerLine] at hlines
  have hlist := List.append_cancel_left hlines
  obtain rfl : kind = kind' := by
    have hfirst := congrArg List.head? hlist
    cases kind <;> cases kind' <;> first | rfl | exact absurd hfirst (by simp [ArtifactKind.label])
  have hhex := List.append_cancel_left (List.append_cancel_left hlist)
  exact congrArg (mk kind) (String.toList_inj.mp hhex)

theorem isPlainByte_of_mem_markerLine {f : Fingerprint}
    (hhex : ∀ c ∈ f.hex.toList, IsPlainByte c) : ∀ c ∈ f.markerLine.toList, IsPlainByte c := by
  have hfixed : ∀ s : List Char, s.all (fun c => decide (IsPlainByte c)) = true →
      ∀ c ∈ s, IsPlainByte c := by
    intro s hs
    simpa using hs
  have hlabel : ∀ kind : ArtifactKind, ∀ c ∈ kind.label.toList, IsPlainByte c := by
    intro kind
    cases kind <;> exact hfixed _ (by decide)
  rw [toList_markerLine]
  simp only [List.forall_mem_append]
  exact ⟨hfixed _ (by decide), hlabel f.kind, hfixed _ (by decide), hhex⟩

theorem isPlainByte_of_mem_hex {kind : ArtifactKind} {records : List Record} {c : Char}
    (hc : c ∈ (ofRecords kind records).hex.toList) : IsPlainByte c := by
  rw [ofRecords, String.toList_ofList] at hc
  exact Digest.Sha384.of_mem_hex (P := IsPlainByte) (by decide) hc

theorem lf_notMem_hex (kind : ArtifactKind) (records : List Record) :
    '\n' ∉ (ofRecords kind records).hex.toList := by
  intro hmem
  exact (isPlainByte_of_mem_hex hmem).2 rfl

end Fingerprint

end AssetPack
