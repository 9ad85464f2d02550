import OaLibs.Base.Text

/-!
# Whitespace and lowercase

The character properties of the Unicode 17 standard that string functions use.

* `isWhitespace`, `trim`: the property `White_Space`, and the removal of such characters from both
  ends;
* `toLower`: the lowercase mapping of a character, which may have more than one character;
* `toLowercase`: the lowercase mapping of a string, in which the Greek capital sigma depends on its
  context;
* `toLower_avoids`: code points that no range of the table touches are left alone;
* `Lowered`: what `toLowercase` does when the two small sigmas are not told apart.
-/

namespace Unicode

/-! ### Whitespace -/

/-- The ranges of `White_Space`. -/
def whiteSpace : List (ℕ × ℕ) :=
  [(0x9, 0xD), (0x20, 0x20), (0x85, 0x85), (0xA0, 0xA0), (0x1680, 0x1680), (0x2000, 0x200A),
   (0x2028, 0x2029), (0x202F, 0x202F), (0x205F, 0x205F), (0x3000, 0x3000)]

/-- `char::is_whitespace`. -/
def isWhitespace (c : Char) : Bool :=
  whiteSpace.any fun range => range.1 ≤ c.toNat && c.toNat ≤ range.2

def trimList (cs : List Char) : List Char := (cs.dropWhile isWhitespace).rdropWhile isWhitespace

/-- `str::trim`. -/
def trim (s : String) : String := String.ofList (trimList s.toList)

/-! ### Lowercase -/

/-- The code points `first`, `first + stride`, …, `last`, each of which is mapped to the code point
that lies `offset` further. -/
structure CaseRange where
  first : ℕ
  last : ℕ
  stride : ℕ
  offset : ℤ

def CaseRange.contains (r : CaseRange) (n : ℕ) : Bool :=
  r.first ≤ n && n ≤ r.last && (n - r.first) % r.stride == 0

/-- The lowercase mappings to a single character. -/
def caseRanges : List CaseRange :=
  [⟨0x41, 0x5A, 1, 32⟩, ⟨0xC0, 0xD6, 1, 32⟩, ⟨0xD8, 0xDE, 1, 32⟩, ⟨0x100, 0x12E, 2, 1⟩,
   ⟨0x132, 0x136, 2, 1⟩, ⟨0x139, 0x147, 2, 1⟩, ⟨0x14A, 0x176, 2, 1⟩, ⟨0x178, 0x178, 1, -121⟩,
   ⟨0x179, 0x17D, 2, 1⟩, ⟨0x181, 0x181, 1, 210⟩, ⟨0x182, 0x184, 2, 1⟩, ⟨0x186, 0x186, 1, 206⟩,
   ⟨0x187, 0x187, 1, 1⟩, ⟨0x189, 0x18A, 1, 205⟩, ⟨0x18B, 0x18B, 1, 1⟩, ⟨0x18E, 0x18E, 1, 79⟩,
   ⟨0x18F, 0x18F, 1, 202⟩, ⟨0x190, 0x190, 1, 203⟩, ⟨0x191, 0x191, 1, 1⟩, ⟨0x193, 0x193, 1, 205⟩,
   ⟨0x194, 0x194, 1, 207⟩, ⟨0x196, 0x196, 1, 211⟩, ⟨0x197, 0x197, 1, 209⟩, ⟨0x198, 0x198, 1, 1⟩,
   ⟨0x19C, 0x19C, 1, 211⟩, ⟨0x19D, 0x19D, 1, 213⟩, ⟨0x19F, 0x19F, 1, 214⟩, ⟨0x1A0, 0x1A4, 2, 1⟩,
   ⟨0x1A6, 0x1A6, 1, 218⟩, ⟨0x1A7, 0x1A7, 1, 1⟩, ⟨0x1A9, 0x1A9, 1, 218⟩, ⟨0x1AC, 0x1AC, 1, 1⟩,
   ⟨0x1AE, 0x1AE, 1, 218⟩, ⟨0x1AF, 0x1AF, 1, 1⟩, ⟨0x1B1, 0x1B2, 1, 217⟩, ⟨0x1B3, 0x1B5, 2, 1⟩,
   ⟨0x1B7, 0x1B7, 1, 219⟩, ⟨0x1B8, 0x1B8, 1, 1⟩, ⟨0x1BC, 0x1BC, 1, 1⟩, ⟨0x1C4, 0x1C4, 1, 2⟩,
   ⟨0x1C5, 0x1C5, 1, 1⟩, ⟨0x1C7, 0x1C7, 1, 2⟩, ⟨0x1C8, 0x1C8, 1, 1⟩, ⟨0x1CA, 0x1CA, 1, 2⟩,
   ⟨0x1CB, 0x1DB, 2, 1⟩, ⟨0x1DE, 0x1EE, 2, 1⟩, ⟨0x1F1, 0x1F1, 1, 2⟩, ⟨0x1F2, 0x1F4, 2, 1⟩,
   ⟨0x1F6, 0x1F6, 1, -97⟩, ⟨0x1F7, 0x1F7, 1, -56⟩, ⟨0x1F8, 0x21E, 2, 1⟩, ⟨0x220, 0x220, 1, -130⟩,
   ⟨0x222, 0x232, 2, 1⟩, ⟨0x23A, 0x23A, 1, 10795⟩, ⟨0x23B, 0x23B, 1, 1⟩, ⟨0x23D, 0x23D, 1, -163⟩,
   ⟨0x23E, 0x23E, 1, 10792⟩, ⟨0x241, 0x241, 1, 1⟩, ⟨0x243, 0x243, 1, -195⟩, ⟨0x244, 0x244, 1, 69⟩,
   ⟨0x245, 0x245, 1, 71⟩, ⟨0x246, 0x24E, 2, 1⟩, ⟨0x370, 0x372, 2, 1⟩, ⟨0x376, 0x376, 1, 1⟩,
   ⟨0x37F, 0x37F, 1, 116⟩, ⟨0x386, 0x386, 1, 38⟩, ⟨0x388, 0x38A, 1, 37⟩, ⟨0x38C, 0x38C, 1, 64⟩,
   ⟨0x38E, 0x38F, 1, 63⟩, ⟨0x391, 0x3A1, 1, 32⟩, ⟨0x3A3, 0x3AB, 1, 32⟩, ⟨0x3CF, 0x3CF, 1, 8⟩,
   ⟨0x3D8, 0x3EE, 2, 1⟩, ⟨0x3F4, 0x3F4, 1, -60⟩, ⟨0x3F7, 0x3F7, 1, 1⟩, ⟨0x3F9, 0x3F9, 1, -7⟩,
   ⟨0x3FA, 0x3FA, 1, 1⟩, ⟨0x3FD, 0x3FF, 1, -130⟩, ⟨0x400, 0x40F, 1, 80⟩, ⟨0x410, 0x42F, 1, 32⟩,
   ⟨0x460, 0x480, 2, 1⟩, ⟨0x48A, 0x4BE, 2, 1⟩, ⟨0x4C0, 0x4C0, 1, 15⟩, ⟨0x4C1, 0x4CD, 2, 1⟩,
   ⟨0x4D0, 0x52E, 2, 1⟩, ⟨0x531, 0x556, 1, 48⟩, ⟨0x10A0, 0x10C5, 1, 7264⟩,
   ⟨0x10C7, 0x10C7, 1, 7264⟩, ⟨0x10CD, 0x10CD, 1, 7264⟩, ⟨0x13A0, 0x13EF, 1, 38864⟩,
   ⟨0x13F0, 0x13F5, 1, 8⟩, ⟨0x1C89, 0x1C89, 1, 1⟩, ⟨0x1C90, 0x1CBA, 1, -3008⟩,
   ⟨0x1CBD, 0x1CBF, 1, -3008⟩, ⟨0x1E00, 0x1E94, 2, 1⟩, ⟨0x1E9E, 0x1E9E, 1, -7615⟩,
   ⟨0x1EA0, 0x1EFE, 2, 1⟩, ⟨0x1F08, 0x1F0F, 1, -8⟩, ⟨0x1F18, 0x1F1D, 1, -8⟩,
   ⟨0x1F28, 0x1F2F, 1, -8⟩, ⟨0x1F38, 0x1F3F, 1, -8⟩, ⟨0x1F48, 0x1F4D, 1, -8⟩,
   ⟨0x1F59, 0x1F5F, 2, -8⟩, ⟨0x1F68, 0x1F6F, 1, -8⟩, ⟨0x1F88, 0x1F8F, 1, -8⟩,
   ⟨0x1F98, 0x1F9F, 1, -8⟩, ⟨0x1FA8, 0x1FAF, 1, -8⟩, ⟨0x1FB8, 0x1FB9, 1, -8⟩,
   ⟨0x1FBA, 0x1FBB, 1, -74⟩, ⟨0x1FBC, 0x1FBC, 1, -9⟩, ⟨0x1FC8, 0x1FCB, 1, -86⟩,
   ⟨0x1FCC, 0x1FCC, 1, -9⟩, ⟨0x1FD8, 0x1FD9, 1, -8⟩, ⟨0x1FDA, 0x1FDB, 1, -100⟩,
   ⟨0x1FE8, 0x1FE9, 1, -8⟩, ⟨0x1FEA, 0x1FEB, 1, -112⟩, ⟨0x1FEC, 0x1FEC, 1, -7⟩,
   ⟨0x1FF8, 0x1FF9, 1, -128⟩, ⟨0x1FFA, 0x1FFB, 1, -126⟩, ⟨0x1FFC, 0x1FFC, 1, -9⟩,
   ⟨0x2126, 0x2126, 1, -7517⟩, ⟨0x212A, 0x212A, 1, -8383⟩, ⟨0x212B, 0x212B, 1, -8262⟩,
   ⟨0x2132, 0x2132, 1, 28⟩, ⟨0x2160, 0x216F, 1, 16⟩, ⟨0x2183, 0x2183, 1, 1⟩,
   ⟨0x24B6, 0x24CF, 1, 26⟩, ⟨0x2C00, 0x2C2F, 1, 48⟩, ⟨0x2C60, 0x2C60, 1, 1⟩,
   ⟨0x2C62, 0x2C62, 1, -10743⟩, ⟨0x2C63, 0x2C63, 1, -3814⟩, ⟨0x2C64, 0x2C64, 1, -10727⟩,
   ⟨0x2C67, 0x2C6B, 2, 1⟩, ⟨0x2C6D, 0x2C6D, 1, -10780⟩, ⟨0x2C6E, 0x2C6E, 1, -10749⟩,
   ⟨0x2C6F, 0x2C6F, 1, -10783⟩, ⟨0x2C70, 0x2C70, 1, -10782⟩, ⟨0x2C72, 0x2C72, 1, 1⟩,
   ⟨0x2C75, 0x2C75, 1, 1⟩, ⟨0x2C7E, 0x2C7F, 1, -10815⟩, ⟨0x2C80, 0x2CE2, 2, 1⟩,
   ⟨0x2CEB, 0x2CED, 2, 1⟩, ⟨0x2CF2, 0x2CF2, 1, 1⟩, ⟨0xA640, 0xA66C, 2, 1⟩, ⟨0xA680, 0xA69A, 2, 1⟩,
   ⟨0xA722, 0xA72E, 2, 1⟩, ⟨0xA732, 0xA76E, 2, 1⟩, ⟨0xA779, 0xA77B, 2, 1⟩,
   ⟨0xA77D, 0xA77D, 1, -35332⟩, ⟨0xA77E, 0xA786, 2, 1⟩, ⟨0xA78B, 0xA78B, 1, 1⟩,
   ⟨0xA78D, 0xA78D, 1, -42280⟩, ⟨0xA790, 0xA792, 2, 1⟩, ⟨0xA796, 0xA7A8, 2, 1⟩,
   ⟨0xA7AA, 0xA7AA, 1, -42308⟩, ⟨0xA7AB, 0xA7AB, 1, -42319⟩, ⟨0xA7AC, 0xA7AC, 1, -42315⟩,
   ⟨0xA7AD, 0xA7AD, 1, -42305⟩, ⟨0xA7AE, 0xA7AE, 1, -42308⟩, ⟨0xA7B0, 0xA7B0, 1, -42258⟩,
   ⟨0xA7B1, 0xA7B1, 1, -42282⟩, ⟨0xA7B2, 0xA7B2, 1, -42261⟩, ⟨0xA7B3, 0xA7B3, 1, 928⟩,
   ⟨0xA7B4, 0xA7C2, 2, 1⟩, ⟨0xA7C4, 0xA7C4, 1, -48⟩, ⟨0xA7C5, 0xA7C5, 1, -42307⟩,
   ⟨0xA7C6, 0xA7C6, 1, -35384⟩, ⟨0xA7C7, 0xA7C9, 2, 1⟩, ⟨0xA7CB, 0xA7CB, 1, -42343⟩,
   ⟨0xA7CC, 0xA7DA, 2, 1⟩, ⟨0xA7DC, 0xA7DC, 1, -42561⟩, ⟨0xA7F5, 0xA7F5, 1, 1⟩,
   ⟨0xFF21, 0xFF3A, 1, 32⟩, ⟨0x10400, 0x10427, 1, 40⟩, ⟨0x104B0, 0x104D3, 1, 40⟩,
   ⟨0x10570, 0x1057A, 1, 39⟩, ⟨0x1057C, 0x1058A, 1, 39⟩, ⟨0x1058C, 0x10592, 1, 39⟩,
   ⟨0x10594, 0x10595, 1, 39⟩, ⟨0x10C80, 0x10CB2, 1, 64⟩, ⟨0x10D50, 0x10D65, 1, 32⟩,
   ⟨0x118A0, 0x118BF, 1, 32⟩, ⟨0x16E40, 0x16E5F, 1, 32⟩, ⟨0x16EA0, 0x16EB8, 1, 27⟩,
   ⟨0x1E900, 0x1E921, 1, 34⟩]

def simpleLower (n : ℕ) : ℕ :=
  match caseRanges.find? fun r => r.contains n with
  | none => n
  | some r => (n + r.offset).toNat

/-- `char::to_lowercase`. -/
def toLower (c : Char) : List Char :=
  -- the capital I with a dot is the only character with a longer mapping
  if c = '\u0130' then ['i', '\u0307'] else [Char.ofNat (simpleLower c.toNat)]

/-- The properties `Cased` and `Case_Ignorable`, by which the end of a word is found. -/
structure WordProperties where
  cased : Char → Bool
  caseIgnorable : Char → Bool

variable (words : WordProperties)

def caseIgnorableThenCased (cs : List Char) : Bool :=
  match cs.dropWhile words.caseIgnorable with
  | [] => false
  | c :: _ => words.cased c

/-- The small sigma for a capital one, by the characters before it, from the last one to the first,
and by those after it. -/
def mapUppercaseSigma (before after : List Char) : Char :=
  if caseIgnorableThenCased words before && !caseIgnorableThenCased words after then 'ς' else 'σ'

def lowerFrom : List Char → List Char → List Char
  | _, [] => []
  | before, c :: after =>
      (if c = 'Σ' then [mapUppercaseSigma words before after] else toLower c) ++
        lowerFrom (c :: before) after

/-- `str::to_lowercase`. -/
def toLowercase (s : String) : String := String.ofList (lowerFrom words [] s.toList)

/-! ### The table -/

/-- The ranges of the table, and one for each of the two characters of the longer mapping. -/
def mappings : List CaseRange :=
  ⟨0x130, 0x130, 1, -0xC7⟩ :: ⟨0x130, 0x130, 1, 0x1D7⟩ :: caseRanges

/-- The image of a range consists of scalar values. -/
def CaseRange.isScalar (r : CaseRange) : Bool :=
  0 ≤ r.first + r.offset &&
    (r.last + r.offset < 0xD800 || 0xE000 ≤ r.first + r.offset && r.last + r.offset < 0x110000)

/-- Neither the range nor its image meets the code points from `lo` to `hi`. -/
def CaseRange.avoids (lo hi : ℕ) (r : CaseRange) : Bool :=
  (r.last < lo || hi < r.first) && (r.last + r.offset < lo || hi < r.first + r.offset)

theorem isScalar_of_mem {r : CaseRange} (h : r ∈ caseRanges) : r.isScalar = true := by
  have hall : caseRanges.all CaseRange.isScalar = true := by decide
  exact List.all_eq_true.1 hall r h

theorem toNat_ofNat_of_isScalar {r : CaseRange} (hr : r.isScalar = true) {n : ℕ}
    (hfirst : r.first ≤ n) (hlast : n ≤ r.last) :
    ((Char.ofNat (n + r.offset).toNat).toNat : ℤ) = n + r.offset := by
  simp only [CaseRange.isScalar, Bool.and_eq_true, Bool.or_eq_true, decide_eq_true_eq] at hr
  have hvalid : (n + r.offset).toNat.isValidChar := by
    unfold Nat.isValidChar
    omega
  rw [Char.toNat_ofNat, if_pos hvalid]
  omega

/-- A character of a lowercase mapping is the character itself, or comes from a range. -/
theorem mem_toLower {c d : Char} (h : d ∈ toLower c) :
    d = c ∨ ∃ r ∈ mappings, r.first ≤ c.toNat ∧ c.toNat ≤ r.last ∧
      (d.toNat : ℤ) = c.toNat + r.offset := by
  unfold toLower at h
  split_ifs at h with hc
  · subst hc
    rcases List.mem_pair.1 h with rfl | rfl
    · exact .inr ⟨_, List.mem_cons_self, by decide⟩
    · exact .inr ⟨_, List.mem_cons_of_mem _ List.mem_cons_self, by decide⟩
  · obtain rfl := List.mem_singleton.1 h
    unfold simpleLower
    cases hfind : caseRanges.find? fun r => r.contains c.toNat with
    | none => exact .inl (Char.ofNat_toNat c)
    | some r =>
      have hmem := List.mem_of_find?_eq_some hfind
      have hcontains := List.find?_some hfind
      simp only [CaseRange.contains, Bool.and_eq_true, decide_eq_true_eq] at hcontains
      obtain ⟨⟨hfirst, hlast⟩, -⟩ := hcontains
      exact .inr ⟨r, List.mem_cons_of_mem _ (List.mem_cons_of_mem _ hmem), hfirst, hlast,
        toNat_ofNat_of_isScalar (isScalar_of_mem hmem) hfirst hlast⟩

/-- Code points that no mapping touches are mapped to themselves, and nothing else is mapped to
them. -/
theorem toLower_avoids {lo hi : ℕ} (h : mappings.all (CaseRange.avoids lo hi) = true) {c d : Char}
    (hd : d ∈ toLower c) : (lo ≤ d.toNat ∧ d.toNat ≤ hi ↔ lo ≤ c.toNat ∧ c.toNat ≤ hi) ∧
      (lo ≤ c.toNat → c.toNat ≤ hi → d = c) := by
  rcases mem_toLower hd with rfl | ⟨r, hr, hfirst, hlast, heq⟩
  · exact ⟨Iff.rfl, fun _ _ => rfl⟩
  · have havoids := List.all_eq_true.1 h r hr
    simp only [CaseRange.avoids, Bool.and_eq_true, Bool.or_eq_true, decide_eq_true_eq] at havoids
    omega

theorem toLower_ne_nil (c : Char) : toLower c ≠ [] := by
  unfold toLower
  split_ifs <;> exact List.cons_ne_nil _ _

/-- A character that no mapping touches. -/
theorem toLower_eq_iff {s : Char} (h : mappings.all (CaseRange.avoids s.toNat s.toNat) = true)
    {c d : Char} (hd : d ∈ toLower c) : d = s ↔ c = s := by
  have hmem := (toLower_avoids h hd).1
  constructor
  · rintro rfl
    exact Char.toNat_inj.1 (by omega)
  · rintro rfl
    exact (toLower_avoids h hd).2 le_rfl le_rfl

theorem isWhitespace_toLower {c d : Char} (hd : d ∈ toLower c) :
    isWhitespace d = isWhitespace c := by
  have hall : whiteSpace.all (fun range =>
      mappings.all (CaseRange.avoids range.1 range.2)) = true := by decide
  unfold isWhitespace
  rw [Bool.eq_iff_iff, List.any_eq_true, List.any_eq_true]
  refine exists_congr fun range => and_congr_right fun hrange => ?_
  simpa using (toLower_avoids (List.all_eq_true.1 hall range hrange) hd).1

/-- What is true of the first 128 characters is true of all ASCII characters. -/
theorem of_ascii {P : Char → Prop} (hall : ∀ n < 128, P (Char.ofNat n)) {c : Char}
    (h : c.toNat < 128) : P c := by
  have hc := hall c.toNat h
  rwa [Char.ofNat_toNat] at hc

/-- The lowercase mapping of an ASCII character. -/
theorem toLower_of_ascii {c : Char} (h : c.toNat < 128) : toLower c = [c.toLower] :=
  of_ascii (P := fun c => toLower c = [c.toLower]) (by decide +kernel) h

/-- Only the Kelvin sign and the capital I with a dot have ASCII characters in their mappings. -/
theorem ascii_of_mem_toLower {c d : Char} (hd : d ∈ toLower c) (h : d.toNat < 128) :
    c.toNat < 128 ∨ c = '\u212A' ∨ c = '\u0130' := by
  have hall : mappings.all (fun r => decide (r.last < 128) || decide (128 ≤ r.first + r.offset) ||
      decide (r.first = 0x212A ∧ r.last = 0x212A) ||
      decide (r.first = 0x130 ∧ r.last = 0x130)) = true := by decide
  rcases mem_toLower hd with rfl | ⟨r, hr, hfirst, hlast, heq⟩
  · exact .inl h
  · have hr := List.all_eq_true.1 hall r hr
    simp only [Bool.or_eq_true, decide_eq_true_eq] at hr
    rcases hr with ((hr | hr) | ⟨hr, hr'⟩) | ⟨hr, hr'⟩
    · exact .inl (by omega)
    · omega
    · exact .inr (.inl (Char.toNat_inj.1 (by
        have hk : '\u212A'.toNat = 0x212A := rfl
        omega)))
    · exact .inr (.inr (Char.toNat_inj.1 (by
        have hi : '\u0130'.toNat = 0x130 := rfl
        omega)))

/-! ### Trimming -/

/-- Neither the first nor the last character is whitespace. -/
def EndsFree (cs : List Char) : Prop :=
  (∀ c ∈ cs.head?, isWhitespace c = false) ∧ ∀ c ∈ cs.getLast?, isWhitespace c = false

theorem endsFree_trimList (cs : List Char) : EndsFree (trimList cs) := by
  have hprefix := List.rdropWhile_prefix isWhitespace (cs.dropWhile isWhitespace)
  constructor
  · intro c hc
    obtain ⟨rest, hrest⟩ := hprefix
    have hhead : c ∈ (cs.dropWhile isWhitespace).head? := by
      rw [← hrest, List.head?_append]
      have hc' : (trimList cs).head? = some c := hc
      unfold trimList at hc'
      rw [hc']
      rfl
    have hnot := List.head?_dropWhile_not isWhitespace cs
    rw [Option.mem_def.1 hhead] at hnot
    simpa using hnot
  · intro c hc
    obtain ⟨hne, rfl⟩ := List.mem_getLast?_eq_getLast hc
    exact Bool.eq_false_iff.2 (List.rdropWhile_last_not isWhitespace _ hne)

theorem EndsFree.trimList_eq {cs : List Char} (h : EndsFree cs) : trimList cs = cs := by
  have hdrop : cs.dropWhile isWhitespace = cs := by
    cases cs with
    | nil => rfl
    | cons c cs => exact List.dropWhile_cons_of_neg (by simpa using h.1 c rfl)
  unfold trimList
  rw [hdrop, List.rdropWhile_eq_self_iff]
  intro hne
  simpa using h.2 _ (List.getLast?_eq_some_getLast hne)

/-! ### Sizes -/

theorem utf8ByteSize_ofList (cs : List Char) :
    (String.ofList cs).utf8ByteSize = (cs.map Char.utf8Size).sum := by
  induction cs with
  | nil => rfl
  | cons c cs ih =>
    have hcons : String.ofList (c :: cs) = String.singleton c ++ String.ofList cs := by
      rw [← String.toList_inj]
      simp
    rw [hcons, String.utf8ByteSize_append, ih, String.utf8ByteSize_singleton, List.map_cons,
      List.sum_cons]

theorem utf8ByteSize_eq_sum (s : String) : s.utf8ByteSize = (s.toList.map Char.utf8Size).sum := by
  rw [← utf8ByteSize_ofList, String.ofList_toList]

/-- The bytes of the lowercase mapping of a character. -/
def lowerSize (c : Char) : ℕ := ((toLower c).map Char.utf8Size).sum

/-! ### The mapping of a string -/

/-- A mapping of a character: for the capital sigma there are two. -/
def LowerImage (c : Char) (part : List Char) : Prop :=
  part = toLower c ∨ c = 'Σ' ∧ part = ['ς']

/-- The characters of `cs` have been mapped one after the other. -/
inductive Lowered : List Char → List Char → Prop
  | nil : Lowered [] []
  | cons {c : Char} {cs part ds : List Char} (himage : LowerImage c part) (h : Lowered cs ds) :
      Lowered (c :: cs) (part ++ ds)

variable {words}

theorem lowered_lowerFrom (before cs : List Char) : Lowered cs (lowerFrom words before cs) := by
  induction cs generalizing before with
  | nil => exact .nil
  | cons c cs ih =>
    refine .cons ?_ (ih (c :: before))
    split_ifs with hc
    · subst hc
      unfold mapUppercaseSigma
      split_ifs
      · exact .inr ⟨rfl, rfl⟩
      · exact .inl (by decide)
    · exact .inl rfl

theorem LowerImage.mem {c d : Char} {part : List Char} (h : LowerImage c part) (hd : d ∈ part) :
    d ∈ toLower c ∨ c = 'Σ' ∧ d = 'ς' := by
  rcases h with rfl | ⟨rfl, rfl⟩
  · exact .inl hd
  · exact .inr ⟨rfl, List.mem_singleton.1 hd⟩

theorem LowerImage.ne_nil {c : Char} {part : List Char} (h : LowerImage c part) : part ≠ [] := by
  rcases h with rfl | ⟨-, rfl⟩
  · exact toLower_ne_nil c
  · exact List.cons_ne_nil _ _

theorem LowerImage.isWhitespace {c d : Char} {part : List Char} (h : LowerImage c part)
    (hd : d ∈ part) : isWhitespace d = isWhitespace c := by
  rcases h.mem hd with hd | ⟨rfl, rfl⟩
  · exact isWhitespace_toLower hd
  · decide

theorem LowerImage.size {c : Char} {part : List Char} (h : LowerImage c part) :
    (part.map Char.utf8Size).sum = lowerSize c := by
  rcases h with rfl | ⟨rfl, rfl⟩
  · rfl
  · decide

theorem splitOn_append_of_notMem {sep : Char} {part : List Char} (h : sep ∉ part)
    (ds : List Char) :
    (part ++ ds).splitOn sep = (ds.splitOn sep).modifyHead (part ++ ·) := by
  induction part with
  | nil =>
    cases hsplit : ds.splitOn sep with
    | nil => exact absurd hsplit (List.splitOn_ne_nil sep ds)
    | cons a as => simp [hsplit]
  | cons d part ih =>
    rw [List.mem_cons, not_or] at h
    rw [List.cons_append, List.splitOn_cons_eq_if_modifyHead, if_neg (by simpa using Ne.symm h.1),
      ih h.2, List.modifyHead_modifyHead]
    rfl

namespace Lowered

variable {cs ds as bs : List Char}

theorem eq_nil_iff (h : Lowered cs ds) : ds = [] ↔ cs = [] := by
  cases h with
  | nil => simp
  | cons himage h => simp [himage.ne_nil]

theorem size (h : Lowered cs ds) : (ds.map Char.utf8Size).sum = (cs.map lowerSize).sum := by
  induction h with
  | nil => rfl
  | cons himage _ ih =>
    rw [List.map_append, List.sum_append, himage.size, ih, List.map_cons, List.sum_cons]

/-- A property that the characters of every mapping have exactly when the character itself has
another. -/
theorem forall_mem_iff {P Q : Char → Prop}
    (hPQ : ∀ c part, LowerImage c part → ((∀ d ∈ part, P d) ↔ Q c)) (h : Lowered cs ds) :
    (∀ d ∈ ds, P d) ↔ ∀ c ∈ cs, Q c := by
  induction h with
  | nil => simp
  | cons himage _ ih => rw [List.forall_mem_append, List.forall_mem_cons, hPQ _ _ himage, ih]

theorem append_inv (h : Lowered (as ++ bs) ds) :
    ∃ as' bs', ds = as' ++ bs' ∧ Lowered as as' ∧ Lowered bs bs' := by
  induction as generalizing ds with
  | nil => exact ⟨[], ds, rfl, .nil, h⟩
  | cons a as ih =>
    cases h with
    | cons himage h =>
      obtain ⟨as', bs', rfl, has, hbs⟩ := ih h
      exact ⟨_, bs', (List.append_assoc _ _ _).symm, .cons himage has, hbs⟩

theorem endsFree (h : Lowered cs ds) (hends : EndsFree cs) : EndsFree ds := by
  constructor
  · intro d hd
    cases h with
    | nil => cases hd
    | @cons c _ part _ himage h =>
      have hmem : d ∈ part := by
        cases part with
        | nil => exact absurd rfl himage.ne_nil
        | cons a part =>
          obtain rfl := Option.some.inj hd
          exact List.mem_cons_self
      rw [himage.isWhitespace hmem]
      exact hends.1 c rfl
  · intro d hd
    rcases List.eq_nil_or_concat cs with rfl | ⟨cs, c, rfl⟩
    · rw [h.eq_nil_iff.2 rfl] at hd
      cases hd
    · rw [List.concat_eq_append] at h hends
      obtain ⟨cs', part, rfl, -, hlast⟩ := h.append_inv
      cases hlast with
      | @cons _ _ part' _ himage hnil =>
        cases hnil
        rw [List.append_nil, List.getLast?_append_of_ne_nil _ himage.ne_nil] at hd
        rw [himage.isWhitespace (List.mem_of_mem_getLast? hd)]
        exact hends.2 c (by simp)

/-- A character that no mapping touches separates the same parts before and after. -/
theorem splitOn {sep : Char} (hascii : sep.toNat < 128)
    (hsep : mappings.all (CaseRange.avoids sep.toNat sep.toNat) = true) (h : Lowered cs ds) :
    List.Forall₂ Lowered (cs.splitOn sep) (ds.splitOn sep) := by
  induction h with
  | nil => exact .cons .nil .nil
  | @cons c cs part ds himage _ ih =>
    rw [List.splitOn_cons_eq_if_modifyHead]
    split_ifs with hc
    · obtain rfl := eq_of_beq hc
      have hpart : part = [c] := by
        rcases himage with rfl | ⟨rfl, -⟩
        · have hlower := toLower_of_ascii hascii
          have hmem : c.toLower ∈ toLower c := by simp [hlower]
          rw [hlower, (toLower_eq_iff hsep hmem).2 rfl]
        · exact absurd hascii (by decide)
      rw [hpart, List.singleton_append, List.splitOn_cons_eq_if_modifyHead,
        if_pos (beq_self_eq_true c)]
      exact .cons .nil ih
    · have hnot : sep ∉ part := by
        intro hmem
        rcases himage.mem hmem with hmem | ⟨-, rfl⟩
        · exact hc (beq_iff_eq.2 ((toLower_eq_iff hsep hmem).1 rfl))
        · exact absurd hascii (by decide)
      rw [splitOn_append_of_notMem hnot]
      generalize cs.splitOn sep = as at ih
      generalize ds.splitOn sep = bs at ih
      cases ih with
      | nil => exact .nil
      | cons hhead htail => exact .cons (.cons himage hhead) htail

end Lowered

end Unicode
