import AssetPack.Host.Files
import AssetPack.Proofs.Generate.Run
import AssetPack.Proofs.Marker
import AssetPack.Proofs.Text.Numerals

/-!
# When a run takes the file that is there for its own

A run is skipped if the first line of the class that is there is the marker of the run. That line is
text, and comes from bytes in a way that forgets much: bytes that are no text are replaced, and so
are different bytes by the same character. What the comparison says of the bytes is nevertheless
exact, since a marker is text of the first 128 characters and has no line feed: the file is the
marker, or begins with the marker and a line feed (`skipsJustForMarker`).
-/

set_option autoImplicit false

namespace AssetPack

open Text

namespace Fingerprint

/-! ## The bytes of a marker -/

/-- The marker, a byte for a character. -/
def markerBytes (f : Fingerprint) : List UInt8 :=
  f.markerLine.toList.map fun c => c.toNat.toUInt8

/-- The digest is written in hexadecimal digits, in whatever case and number. -/
def HexDigest (f : Fingerprint) : Prop := ∀ c ∈ f.hex.toList, (digitValue? 16 c).isSome = true

instance (f : Fingerprint) : Decidable f.HexDigest :=
  List.decidableBAll (fun c => (digitValue? 16 c).isSome = true) f.hex.toList

theorem isPlainByte_of_digitValue? {c : Char} (h : (digitValue? 16 c).isSome = true) :
    IsPlainByte c := by
  have hle : ∀ {d : Char}, c ≤ d → d.toNat < 0x80 → c.toNat < 0x80 := fun hcd hd =>
    lt_of_le_of_lt (UInt32.le_iff_toNat_le.mp hcd) hd
  refine ⟨?_, by rintro rfl; cases h⟩
  unfold digitValue? at h
  split_ifs at h with hdecimal hlower hupper
  · exact hle hdecimal.2 (by decide)
  · exact hle hlower.2 (by decide)
  · exact hle hupper.2 (by decide)
  · cases h

theorem HexDigest.isPlainByte {f : Fingerprint} (hf : f.HexDigest) :
    ∀ c ∈ f.markerLine.toList, IsPlainByte c :=
  isPlainByte_of_mem_markerLine fun c hc => isPlainByte_of_digitValue? (hf c hc)

theorem HexDigest.encode_markerLine {f : Fingerprint} (hf : f.HexDigest) :
    Utf8.encode f.markerLine.toList = f.markerBytes :=
  Utf8.encode_ascii fun c hc => (hf.isPlainByte c hc).1

/-- A marker is found in a first line just where its bytes are. -/
theorem HexDigest.matchesMarker_iff {f : Fingerprint} (hf : f.HexDigest) {bytes : List UInt8} :
    f.matchesMarker (String.ofList (FileSystem.firstLineOf bytes)) = true ↔
      bytes = f.markerBytes ∨ ∃ rest, bytes = f.markerBytes ++ 0x0A :: rest := by
  rw [← hf.encode_markerLine, ← FileSystem.firstLineOf_eq_iff hf.isPlainByte, matchesMarker,
    beq_iff_eq, ← String.toList_inj, String.toList_ofList]

theorem HexDigest.matchesMarker_eq_false {f : Fingerprint} (hf : f.HexDigest) {b : UInt8}
    {rest bytes : List UInt8} (hbytes : bytes = f.markerBytes ++ b :: rest) (hb : b ≠ 0x0A) :
    f.matchesMarker (String.ofList (FileSystem.firstLineOf bytes)) = false := by
  rw [Bool.eq_false_iff, ne_eq, hf.matchesMarker_iff, hbytes]
  rintro (hend | ⟨rest', hline⟩)
  · exact absurd (List.append_right_eq_self.mp hend) (List.cons_ne_nil _ _)
  · exact hb (List.cons.inj (List.append_cancel_left hline)).1

theorem markerBytes_append (f : Fingerprint) (more : String) :
    markerBytes ⟨f.kind, f.hex ++ more⟩ =
      f.markerBytes ++ more.toList.map fun c => c.toNat.toUInt8 := by
  simp [markerBytes, toList_markerLine]

/-- What a file that begins with a marker has for its fourth byte. -/
def labelByte : ArtifactKind → UInt8
  | .shaders => 0x53
  | .images => 0x49

theorem getElem?_of_isPrefix {f : Fingerprint} {bytes : List UInt8} (h : f.markerBytes <+: bytes) :
    bytes[3]? = some (labelByte f.kind) := by
  obtain ⟨rest, rfl⟩ := h
  rw [markerBytes, toList_markerLine]
  cases f.kind <;> simp [ArtifactKind.label, labelByte]

/-- No file begins with markers of both kinds. -/
theorem kind_eq_of_isPrefix {f g : Fingerprint} {bytes : List UInt8} (hf : f.markerBytes <+: bytes)
    (hg : g.markerBytes <+: bytes) : g.kind = f.kind := by
  have hlabel := (getElem?_of_isPrefix hg).symm.trans (getElem?_of_isPrefix hf)
  cases hf' : f.kind <;> cases hg' : g.kind <;> first | rfl | simp [labelByte, hf', hg'] at hlabel

end Fingerprint

namespace Generate

/-! ## The theorem -/

/-- **The check for a skip is exact on bytes.** Whatever bytes are in the file at the path, its
first line is read, and is the marker just if the file is the marker, byte for byte, or begins with
the marker and a line feed. So it is none where the first line is no text, where a carriage return
or further digits follow, and behind the label of the other kind of class. -/
theorem skipsJustForMarker {f : Fingerprint} (hf : f.HexDigest) {d : Host.Disk} {path : Path}
    {bytes : List UInt8} (hfile : d.read path = .ok bytes) :
    ∃ line, FileSystem.firstLine d path = .ok (some line) ∧
      (isCurrent d path f).result = .ok (f.matchesMarker (String.ofList line)) ∧
      (f.matchesMarker (String.ofList line) = true ↔
        bytes = f.markerBytes ∨ ∃ rest, bytes = f.markerBytes ++ 0x0A :: rest) ∧
      (∀ e, Utf8.decode (bytes.takeWhile (· != 0x0A)) = .error e →
        f.matchesMarker (String.ofList line) = false) ∧
      (∀ rest, bytes = f.markerBytes ++ 0x0D :: rest →
        f.matchesMarker (String.ofList line) = false) ∧
      (∀ more rest, more ≠ "" → Fingerprint.HexDigest ⟨f.kind, f.hex ++ more⟩ →
        bytes = Fingerprint.markerBytes ⟨f.kind, f.hex ++ more⟩ ++ rest →
          f.matchesMarker (String.ofList line) = false) ∧
      ∀ g : Fingerprint, g.kind ≠ f.kind → g.markerBytes <+: bytes →
        f.matchesMarker (String.ofList line) = false := by
  have hline : FileSystem.firstLine d path = .ok (some (FileSystem.firstLineOf bytes)) := by
    change d.firstLine path = _
    rw [Host.Disk.firstLine, hfile]
  refine ⟨_, hline, ?_, hf.matchesMarker_iff, ?_, ?_, ?_, ?_⟩
  · rw [result_isCurrent, hline]
    rfl
  · intro e hdecode
    rw [Bool.eq_false_iff, ne_eq, Fingerprint.matchesMarker, beq_iff_eq]
    intro hmatch
    have hmarker : Utf8.decodeLossy (bytes.takeWhile (· != 0x0A)) = f.markerLine.toList := by
      rw [← hmatch, String.toList_ofList]
      rfl
    have hshown : '\ufffd' ∉ Utf8.decodeLossy (bytes.takeWhile (· != 0x0A)) := by
      rw [hmarker]
      exact fun hmem => absurd (hf.isPlainByte _ hmem).1 (by decide)
    rw [Utf8.decode_of_decodeLossy hshown] at hdecode
    cases hdecode
  · intro rest hbytes
    exact hf.matchesMarker_eq_false hbytes (by decide)
  · intro more rest hmore hdigest hbytes
    obtain ⟨c, r, hmore⟩ := List.exists_cons_of_ne_nil (l := more.toList)
      fun hnil => hmore (String.toList_inj.mp (hnil.trans String.toList_empty.symm))
    have hc : IsPlainByte c := Fingerprint.isPlainByte_of_digitValue? (hdigest c (by simp [hmore]))
    rw [Fingerprint.markerBytes_append, hmore, List.map_cons, List.append_assoc,
      List.cons_append] at hbytes
    exact hf.matchesMarker_eq_false hbytes (lf_ne_toUInt8 hc)
  · intro g hkind hg
    rw [Bool.eq_false_iff, ne_eq, hf.matchesMarker_iff]
    intro hmatch
    refine hkind (Fingerprint.kind_eq_of_isPrefix ?_ hg)
    rcases hmatch with rfl | ⟨rest, rfl⟩
    · exact List.prefix_refl _
    · exact List.prefix_append _ _

namespace Marked

def digest : Fingerprint := ⟨.images, "9eF0"⟩

def disk (bytes : List UInt8) : Host.Disk := ⟨[(["Images.java"], .file bytes false)], []⟩

end Marked

/-- A file that is the marker and nothing else is skipped, and not if it goes on with a carriage
return before the line feed. -/
theorem skipsJustForMarker_ends :
    (∃ line, FileSystem.firstLine (Marked.disk Marked.digest.markerBytes) ⟨"Images.java"⟩ =
        .ok (some line) ∧ Marked.digest.matchesMarker (String.ofList line) = true) ∧
      ∃ line, FileSystem.firstLine (Marked.disk (Marked.digest.markerBytes ++ [0x0D, 0x0A]))
        ⟨"Images.java"⟩ = .ok (some line) ∧
          Marked.digest.matchesMarker (String.ofList line) = false := by
  have hdigest : Marked.digest.HexDigest := by decide
  have hread : ∀ bytes, (Marked.disk bytes).read ⟨"Images.java"⟩ = .ok bytes := by
    intro bytes
    have hsteps : Host.Disk.steps "Images.java" = ["Images.java"] := by decide
    have hsize : "Images.java".utf8ByteSize ≤ Host.Disk.maxName := by decide
    have hplace : (Marked.disk bytes).walk true Host.Disk.maxLinks [] ["Images.java"] =
        .ok ["Images.java"] := by
      simp [Host.Disk.walk, Marked.disk, Host.Disk.isDirAt, Host.Disk.entry?, hsize]
    have hresolve : (Marked.disk bytes).resolve true ⟨"Images.java"⟩ = .ok ["Images.java"] := by
      rw [Host.Disk.resolve, hsteps]
      exact hplace
    rw [Host.Disk.read, Host.Disk.find, hresolve]
    rfl
  obtain ⟨line, hline, -, hmatch, -⟩ := skipsJustForMarker hdigest (hread Marked.digest.markerBytes)
  obtain ⟨line', hline', -, -, -, hreturn, -⟩ :=
    skipsJustForMarker hdigest (hread (Marked.digest.markerBytes ++ [0x0D, 0x0A]))
  exact ⟨⟨line, hline, hmatch.mpr (.inl rfl)⟩, line', hline', hreturn _ rfl⟩

end Generate

end AssetPack
