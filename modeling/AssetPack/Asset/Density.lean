/-!
# Pixel densities and the suffixes that tell them

An image names the density it was drawn for at the end of its base name, as in `tap-hdpi`. A
`DensityTable` lists the suffixes with their densities, longest first, so that the first suffix
that fits is the longest one; suffixes of one length stand in ascending order. Every table is
made by `assign`, which keeps that order and holds each suffix once.
-/

set_option autoImplicit false

namespace AssetPack

/-- Dots per inch; zero where a file does not say. -/
structure Density where
  dpi : Nat
  deriving DecidableEq, Repr

namespace Density

/-- The density of an image that names none. -/
def unspecified : Density := ⟨0⟩

/-- Whether the density says anything. -/
def isSpecified (d : Density) : Bool := d.dpi != 0

end Density

/-- Suffixes and their densities, in the order in which they are tried. -/
structure DensityTable where
  entries : List (String × Density)
  deriving DecidableEq, Repr

namespace DensityTable

/-- Whether suffix `a` is tried before suffix `b`: the longer one first, counted in bytes, and the
smaller one first where lengths agree. -/
def triedBefore (a b : String) : Bool :=
  b.utf8ByteSize < a.utf8ByteSize || (a.utf8ByteSize == b.utf8ByteSize && a < b)

/-- Entries with one suffix given a density, at its place in the order. -/
def insertEntry (suffix : String) (d : Density) :
    List (String × Density) → List (String × Density)
  | [] => [(suffix, d)]
  | e :: r =>
    if e.1 = suffix then (suffix, d) :: r
    else if triedBefore suffix e.1 then (suffix, d) :: e :: r
    else e :: insertEntry suffix d r

/-- The table with one suffix given a density, replacing the one it had. The empty suffix, which
would fit everything, is not taken. -/
def assign (t : DensityTable) (suffix : String) (dpi : Nat) : DensityTable :=
  if suffix = "" then t else ⟨insertEntry suffix ⟨dpi⟩ t.entries⟩

/-- The table after a list of assignments; a later one wins. -/
def assignAll (t : DensityTable) (pairs : List (String × Nat)) : DensityTable :=
  pairs.foldl (fun t p => t.assign p.1 p.2) t

/-- The table of a list of assignments. -/
def ofPairs (pairs : List (String × Nat)) : DensityTable :=
  assignAll ⟨[]⟩ pairs

/-- The platform's own density classes and one class for markers, whose density is a multiple of
all the others. -/
def builtin : DensityTable :=
  ofPairs [("-ldpi", 120), ("-mdpi", 160), ("-hdpi", 240), ("-xhdpi", 320), ("-xxhdpi", 480),
    ("-hires1", 960)]

/-- The base name without its density suffix, and the density; or all of it and no density. -/
def split (t : DensityTable) (base : String) : String × Density :=
  let fit := t.entries.findSome? fun (suffix, d) =>
    (suffix.toList.isSuffixOf? base.toList).map fun rest => (String.ofList rest, d)
  fit.getD (base, .unspecified)

end DensityTable

end AssetPack
