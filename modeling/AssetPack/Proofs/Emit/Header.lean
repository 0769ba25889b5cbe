import AssetPack.Emit.Shaders
import AssetPack.Proofs.Files.Path
import AssetPack.Proofs.Marker
import AssetPack.Proofs.Text.Lines

/-!
# What stands above the members

Both kinds of class begin with their marker, the package if there is one, and a line with the name
of the class. Of these only the digest in the marker comes from outside; names and packages are made
of name characters and dots, so they stay on their lines.
-/

set_option autoImplicit false

namespace AssetPack

namespace ClassName

/-- What holds of name characters holds of every character of the name. -/
theorem of_mem_simpleName {P : Char → Prop} (hP : ∀ a, Java.isNamePart a = true → P a)
    {c : ClassName} {a : Char} (ha : a ∈ c.simpleName.toList) : P a :=
  hP a (Java.isNamePart_of_mem c.isName_simpleName ha)

theorem of_mem_package {P : Char → Prop} (hP : ∀ a, Java.isNamePart a = true → P a) (hdot : P '.')
    {c : ClassName} {p : String} (hp : c.package? = some p) {a : Char} (ha : a ∈ p.toList) :
    P a := by
  unfold package? at hp
  split at hp
  · cases hp
  · cases hp
    rw [String.toList_intercalate] at ha
    rcases Text.mem_join ha with rfl | ⟨piece, hpiece, ha⟩
    · exact hdot
    · obtain ⟨s, hs, rfl⟩ := List.mem_map.mp hpiece
      have hname := c.isName_of_mem s ((List.dropLast_sublist _).mem hs)
      exact hP a (Java.isNamePart_of_mem hname ha)

end ClassName

namespace Java

theorem ne_of_isNamePart {a b : Char} (hb : isNamePart b = false) (ha : isNamePart a = true) :
    a ≠ b := by
  rintro rfl
  rw [hb] at ha
  cases ha

end Java

namespace Emit

theorem lf_notMem_markerLine {f : Fingerprint} (hf : '\n' ∉ f.hex.toList) :
    '\n' ∉ f.markerLine.toList := by
  have hlabel : '\n' ∉ f.kind.label.toList := by
    cases f.kind <;> decide
  rw [Fingerprint.toList_markerLine]
  exact List.not_mem_append (by decide)
    (List.not_mem_append hlabel (List.not_mem_append (by decide) hf))

theorem lf_notMem_simpleName (c : ClassName) : '\n' ∉ c.simpleName.toList := fun h =>
  ClassName.of_mem_simpleName (fun _ => Java.ne_of_isNamePart (b := '\n') (by decide)) h rfl

theorem lf_notMem_package {c : ClassName} {p : String} (hp : c.package? = some p) :
    '\n' ∉ "package ".toList ++ p.toList ++ [';'] := by
  have hname : '\n' ∉ p.toList := fun h =>
    ClassName.of_mem_package (fun _ => Java.ne_of_isNamePart (b := '\n') (by decide)) (by decide) hp
      h rfl
  exact List.not_mem_append (List.not_mem_append (by decide) hname) (by decide)

end Emit

end AssetPack
