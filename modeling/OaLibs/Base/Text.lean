import Mathlib

/-!
# Texts: splitting, rendering and UTF-8

String operations of a standard library, over the characters of a string.

* `split`, `splitOnce`, `stripPrefix`: splitting at a separator, removing a prefix;
* `append_sep_inj`: a text joined by separators is read back from the right, whatever its first
  part is, as soon as the later parts are free of the separator;
* `decimal`, `hexByte`, `hex`: the renderings `{}` of an integer and `{:02x}` of bytes, which are
  injective and contain no control character;
* `utf8`: the UTF-8 bytes of a string;
* `fromUtf8Lossy`: decoding in which every maximal ill-formed part becomes a replacement character,
  and which reads a string back from its bytes.
-/

namespace Text

/-! ### Splitting -/

/-- The parts of a string between the occurrences of a character. -/
def split (c : Char) (s : String) : List String :=
  (s.toList.splitOn c).map String.ofList

/-- The rest of a string after a prefix, if it starts with it. -/
def stripPrefix (p s : String) : Option String :=
  if p.toList <+: s.toList then some (String.ofList (s.toList.drop p.toList.length)) else none

theorem stripPrefix_append (p s : String) : stripPrefix p (p ++ s) = some s := by
  unfold stripPrefix
  rw [String.toList_append, if_pos (List.prefix_append _ _), List.drop_left, String.ofList_toList]

theorem split_of_notMem {c : Char} {s : String} (h : c ∉ s.toList) : split c s = [s] := by
  unfold split
  rw [List.splitOn_eq_singleton h]
  simp

/-- Splitting after a part that is free of the separator. -/
theorem split_append_sep {c : Char} {a : String} (h : c ∉ a.toList) (b : String) :
    split c (a ++ String.singleton c ++ b) = a :: split c b := by
  unfold split
  rw [show (a ++ String.singleton c ++ b).toList = a.toList ++ c :: b.toList by simp,
    List.splitOn_append_cons_self_of_not_mem h, List.map_cons, String.ofList_toList]

/-- The parts of a string before and after the first occurrence of a character. -/
def splitOnce (c : Char) (s : String) : Option (String × String) :=
  match s.toList.dropWhile (· ≠ c) with
  | [] => none
  | _ :: rest => some (String.ofList (s.toList.takeWhile (· ≠ c)), String.ofList rest)

theorem splitOnce_append_sep {c : Char} {a : String} (h : c ∉ a.toList) (b : String) :
    splitOnce c (a ++ String.singleton c ++ b) = some (a, b) := by
  have hlist : (a ++ String.singleton c ++ b).toList = a.toList ++ c :: b.toList := by simp
  have hfree : ∀ x ∈ a.toList, decide (x ≠ c) = true := by
    intro x hx
    have hne : x ≠ c := by
      rintro rfl
      exact h hx
    simpa using hne
  unfold splitOnce
  rw [hlist, List.dropWhile_append_of_pos hfree, List.takeWhile_append_of_pos hfree]
  simp

/-- Two texts with the same separator before a part that is free of it have the same parts. -/
theorem append_sep_inj {α : Type} {sep : α} {a a' b b' : List α} (hb : sep ∉ b) (hb' : sep ∉ b')
    (h : a ++ sep :: b = a' ++ sep :: b') : a = a' ∧ b = b' := by
  rcases List.append_eq_append_iff.1 h with ⟨m, ha, hm⟩ | ⟨m, ha, hm⟩
  · cases m with
    | nil => simp_all
    | cons x m =>
      obtain ⟨-, rfl⟩ := List.cons.inj hm
      simp at hb
  · cases m with
    | nil => simp_all
    | cons x m =>
      obtain ⟨-, rfl⟩ := List.cons.inj hm
      simp at hb'

theorem mem_of_mem_splitOn {α : Type} [BEq α] [LawfulBEq α] {a c : α} {l part : List α}
    (h : part ∈ l.splitOn a) (hc : c ∈ part) : c ∈ l := by
  induction l generalizing part with
  | nil =>
    obtain rfl : part = [] := by simpa using h
    exact hc
  | cons x l ih =>
    rw [List.splitOn_cons_eq_if_modifyHead] at h
    split_ifs at h with hx
    · rcases List.mem_cons.1 h with rfl | h
      · cases hc
      · exact List.mem_cons_of_mem x (ih h hc)
    · cases hsplit : l.splitOn a with
      | nil => exact absurd hsplit (List.splitOn_ne_nil a l)
      | cons front parts =>
        rw [hsplit, List.modifyHead_cons] at h
        rcases List.mem_cons.1 h with rfl | h
        · rcases List.mem_cons.1 hc with rfl | hc
          · exact List.mem_cons_self
          · exact List.mem_cons_of_mem x (ih (by simp [hsplit]) hc)
        · exact List.mem_cons_of_mem x (ih (by simp [hsplit, h]) hc)

/-- An element other than the separator is in one of the parts. -/
theorem exists_mem_splitOn {α : Type} [BEq α] [LawfulBEq α] {a c : α} {l : List α} (h : c ∈ l)
    (hne : c ≠ a) : ∃ part ∈ l.splitOn a, c ∈ part := by
  obtain ⟨as, bs, rfl⟩ := List.append_of_mem h
  induction as with
  | nil =>
    rw [List.nil_append, List.splitOn_cons_eq_if_modifyHead, if_neg (by simpa using hne)]
    cases hsplit : bs.splitOn a with
    | nil => exact absurd hsplit (List.splitOn_ne_nil a bs)
    | cons part parts => exact ⟨c :: part, List.mem_cons_self, List.mem_cons_self⟩
  | cons x as ih =>
    obtain ⟨part, hpart, hc⟩ := ih (by simp)
    rw [List.cons_append, List.splitOn_cons_eq_if_modifyHead]
    split_ifs
    · exact ⟨part, List.mem_cons_of_mem _ hpart, hc⟩
    · cases hsplit : (as ++ c :: bs).splitOn a with
      | nil => exact absurd hsplit (List.splitOn_ne_nil a _)
      | cons first parts =>
        rw [hsplit] at hpart
        rcases List.mem_cons.1 hpart with rfl | hpart
        · exact ⟨x :: part, List.mem_cons_self, List.mem_cons_of_mem x hc⟩
        · exact ⟨part, List.mem_cons_of_mem _ hpart, hc⟩

/-- Joined by a separator, parts that are not empty and free of it are told apart. -/
theorem intercalate_inj {α : Type} [BEq α] [LawfulBEq α] {sep : α} {parts parts' : List (List α)}
    (h : ∀ part ∈ parts, part ≠ [] ∧ sep ∉ part) (h' : ∀ part ∈ parts', part ≠ [] ∧ sep ∉ part)
    (heq : [sep].intercalate parts = [sep].intercalate parts') : parts = parts' := by
  have hsplit : ∀ ps : List (List α), (∀ part ∈ ps, part ≠ [] ∧ sep ∉ part) →
      (([sep].intercalate ps).splitOn sep).filter (fun part => !part.isEmpty) = ps := by
    intro ps hps
    by_cases hnil : ps = []
    · subst hnil
      rfl
    · rw [List.splitOn_intercalate sep (fun part hpart => (hps part hpart).2) hnil,
        List.filter_eq_self]
      intro part hpart
      simpa using (hps part hpart).1
  rw [← hsplit parts h, heq, hsplit parts' h']

/-- Splitting a list of images where no other element has the image of the separator. -/
theorem splitOn_map {α β : Type} [BEq α] [LawfulBEq α] [BEq β] [LawfulBEq β] {f : α → β} {a : α}
    {l : List α} (h : ∀ x ∈ l, f x = f a → x = a) :
    (l.map f).splitOn (f a) = (l.splitOn a).map (List.map f) := by
  induction l with
  | nil => rfl
  | cons x l ih =>
    have ih' := ih fun y hy => h y (List.mem_cons_of_mem x hy)
    rw [List.map_cons, List.splitOn_cons_eq_if_modifyHead, List.splitOn_cons_eq_if_modifyHead, ih']
    by_cases hx : x = a
    · simp [hx]
    · have hf : f x ≠ f a := fun heq => hx (h x List.mem_cons_self heq)
      rw [if_neg (by simpa using hf), if_neg (by simpa using hx)]
      cases hsplit : l.splitOn a with
      | nil => exact absurd hsplit (List.splitOn_ne_nil a l)
      | cons part parts => simp

/-- A map is injective on lists as far as it is on their elements. -/
theorem map_inj_on {α β : Type} {f : α → β} {as bs : List α}
    (h : ∀ a ∈ as, ∀ b ∈ bs, f a = f b → a = b) (heq : as.map f = bs.map f) : as = bs := by
  induction as generalizing bs with
  | nil => exact (List.map_eq_nil_iff.1 heq.symm).symm
  | cons a as ih =>
    cases bs with
    | nil => cases heq
    | cons b bs =>
      obtain ⟨hhead, htail⟩ := List.cons.inj heq
      rw [h a List.mem_cons_self b List.mem_cons_self hhead,
        ih (fun x hx y hy => h x (List.mem_cons_of_mem a hx) y (List.mem_cons_of_mem b hy)) htail]

/-! ### Decimal rendering -/

/-- The rendering `{}` of an integer. -/
def decimal (n : ℤ) : String := toString n

theorem decimal_injective : Function.Injective decimal := by
  intro a b h
  exact Int.repr_injective h

theorem toInt?_decimal (n : ℤ) : (decimal n).toInt? = some n := Int.toInt?_repr n

theorem mem_decimal {n : ℤ} {c : Char} (h : c ∈ (decimal n).toList) : c = '-' ∨ c.isDigit := by
  have hnat : ∀ k : ℕ, c ∈ (Nat.repr k).toList → c.isDigit := by
    intro k hk
    simp only [Nat.repr, String.toList_ofList] at hk
    exact Nat.isDigit_of_mem_toDigits (by decide) (by decide) hk
  cases n with
  | ofNat k => exact Or.inr (hnat k h)
  | negSucc k =>
    have h' : c ∈ ("-" ++ Nat.repr (k + 1)).toList := h
    rw [String.toList_append, List.mem_append] at h'
    rcases h' with h' | h'
    · exact Or.inl (by simpa using h')
    · exact Or.inr (hnat _ h')

theorem newline_notMem_decimal (n : ℤ) : '\n' ∉ (decimal n).toList := by
  intro h
  rcases mem_decimal h with h | h
  · exact absurd h (by decide)
  · exact absurd h (by decide)

/-! ### Hexadecimal rendering -/

/-- The lower-case hexadecimal digit of a number below 16. -/
def hexDigit (n : ℕ) : Char :=
  "0123456789abcdef".toList.getD n '0'

/-- The rendering `{:02x}` of a byte. -/
def hexByte (b : UInt8) : List Char := [hexDigit (b.toNat / 16), hexDigit (b.toNat % 16)]

/-- The bytes rendered one after the other. -/
def hex (bs : List UInt8) : String := String.ofList (bs.flatMap hexByte)

theorem hexDigit_inj {m n : ℕ} (hm : m < 16) (hn : n < 16) (h : hexDigit m = hexDigit n) :
    m = n := by
  have key : ∀ i : Fin 16, ∀ j : Fin 16, hexDigit i = hexDigit j → i = j := by decide
  have := key ⟨m, hm⟩ ⟨n, hn⟩ h
  exact congrArg Fin.val this

theorem newline_ne_hexDigit (n : ℕ) : hexDigit n ≠ '\n' := by
  by_cases h : n < 16
  · have key : ∀ i : Fin 16, hexDigit i ≠ '\n' := by decide
    exact key ⟨n, h⟩
  · unfold hexDigit
    rw [List.getD_eq_default _ _ (by simpa using h)]
    decide

theorem hexByte_injective : Function.Injective hexByte := by
  intro a b h
  simp only [hexByte, List.cons.injEq, and_true] at h
  have ha := UInt8.toNat_lt a
  have hb := UInt8.toNat_lt b
  have hdiv := hexDigit_inj (by omega) (by omega) h.1
  have hmod := hexDigit_inj (Nat.mod_lt _ (by omega)) (Nat.mod_lt _ (by omega)) h.2
  exact UInt8.toNat_inj.1 (by omega)

theorem flatMap_hexByte_injective : Function.Injective (List.flatMap hexByte) := by
  intro l
  induction l with
  | nil =>
    intro l' h
    cases l' with
    | nil => rfl
    | cons b l' => simp [hexByte] at h
  | cons a l ih =>
    intro l' h
    cases l' with
    | nil => simp [hexByte] at h
    | cons b l' =>
      rw [List.flatMap_cons, List.flatMap_cons] at h
      obtain ⟨h1, h2⟩ := List.append_inj h rfl
      rw [hexByte_injective h1, ih h2]

theorem hex_injective : Function.Injective hex := by
  intro a b h
  exact flatMap_hexByte_injective (String.ofList_inj.1 h)

theorem newline_notMem_hex (bs : List UInt8) : '\n' ∉ (hex bs).toList := by
  simp only [hex, String.toList_ofList, List.mem_flatMap, hexByte, List.mem_cons,
    List.not_mem_nil, or_false, not_exists, not_and, not_or]
  intro b _
  exact ⟨fun h => newline_ne_hexDigit _ h.symm, fun h => newline_ne_hexDigit _ h.symm⟩

/-! ### UTF-8 -/

/-- The UTF-8 bytes of a string. -/
def utf8 (s : String) : List UInt8 := s.toList.flatMap String.utf8EncodeChar

theorem toByteArray_utf8 (s : String) : (utf8 s).toByteArray = s.toByteArray := by
  rw [← String.utf8Encode_toList]
  rfl

theorem utf8_injective : Function.Injective utf8 := by
  intro s t h
  apply String.toByteArray_inj.1
  rw [← toByteArray_utf8, h, toByteArray_utf8]

/-- The UTF-8 bytes of an ASCII string are its characters. -/
theorem utf8_of_ascii {s : String} (h : ∀ c ∈ s.toList, c.toNat ≤ 127) :
    utf8 s = s.toList.map fun c => UInt8.ofNat c.toNat := by
  have hchar : ∀ c ∈ s.toList, String.utf8EncodeChar c = [UInt8.ofNat c.toNat] := by
    intro c hc
    unfold String.utf8EncodeChar
    exact if_pos (h c hc)
  unfold utf8
  rw [List.flatMap_congr hchar, List.map_eq_flatMap]

theorem ofNat_toNat_inj {c d : Char} (hc : c.toNat ≤ 127) (hd : d.toNat ≤ 127)
    (h : UInt8.ofNat c.toNat = UInt8.ofNat d.toNat) : c = d := by
  have hnat := congrArg UInt8.toNat h
  rw [UInt8.toNat_ofNat', UInt8.toNat_ofNat'] at hnat
  exact Char.toNat_inj.1 (by omega)

theorem map_ofNat_toNat_inj {cs ds : List Char} (hc : ∀ c ∈ cs, c.toNat ≤ 127)
    (hd : ∀ d ∈ ds, d.toNat ≤ 127)
    (h : cs.map (fun c => UInt8.ofNat c.toNat) = ds.map fun d => UInt8.ofNat d.toNat) :
    cs = ds :=
  map_inj_on (fun c hmem d hmem' heq => ofNat_toNat_inj (hc c hmem) (hd d hmem') heq) h

/-- The lead bytes of three and four bytes, with the second bytes each of them allows. -/
def secondAllowed (b₀ b₁ : UInt8) : Bool :=
  (b₀ == 0xE0 && 0xA0 ≤ b₁ && b₁ ≤ 0xBF) || (0xE1 ≤ b₀ && b₀ ≤ 0xEC && 0x80 ≤ b₁ && b₁ ≤ 0xBF) ||
    (b₀ == 0xED && 0x80 ≤ b₁ && b₁ ≤ 0x9F) || (0xEE ≤ b₀ && b₀ ≤ 0xEF && 0x80 ≤ b₁ && b₁ ≤ 0xBF) ||
    (b₀ == 0xF0 && 0x90 ≤ b₁ && b₁ ≤ 0xBF) || (0xF1 ≤ b₀ && b₀ ≤ 0xF3 && 0x80 ≤ b₁ && b₁ ≤ 0xBF) ||
    (b₀ == 0xF4 && 0x80 ≤ b₁ && b₁ ≤ 0x8F)

/-- The length of the maximal ill-formed part at the front of bytes that do not start with a
character. -/
def illFormedLength : List UInt8 → ℕ
  | b₀ :: b₁ :: b₂ :: _ =>
      if secondAllowed b₀ b₁ then if 0xF0 ≤ b₀ ∧ 0x80 ≤ b₂ ∧ b₂ ≤ 0xBF then 3 else 2 else 1
  | [b₀, b₁] => if secondAllowed b₀ b₁ then 2 else 1
  | _ => 1

/-- The decoding of at most `n` characters and ill-formed parts. -/
def decodeLossy : ℕ → List UInt8 → List Char
  | 0, _ => []
  | _ + 1, [] => []
  | n + 1, b :: bs =>
      match (b :: bs).toByteArray.utf8DecodeChar? 0 with
      | some c => c :: decodeLossy n ((b :: bs).drop c.utf8Size)
      | none => Char.ofNat 0xFFFD :: decodeLossy n ((b :: bs).drop (illFormedLength (b :: bs)))

/-- `String::from_utf8_lossy`. -/
def fromUtf8Lossy (bs : List UInt8) : String :=
  String.ofList (decodeLossy bs.length bs)

theorem decodeLossy_encode (cs : List Char) (n : ℕ) (h : cs.length ≤ n) :
    decodeLossy n (cs.flatMap String.utf8EncodeChar) = cs := by
  induction cs generalizing n with
  | nil => cases n <;> rfl
  | cons c cs ih =>
    obtain ⟨n, rfl⟩ := Nat.exists_eq_add_of_lt (show 0 < n from Nat.lt_of_lt_of_le (by simp) h)
    rw [Nat.zero_add]
    obtain ⟨b, bs, hb⟩ : ∃ b bs, String.utf8EncodeChar c = b :: bs :=
      List.exists_cons_of_ne_nil (by simp)
    have hdecode : (String.utf8EncodeChar c ++
        cs.flatMap String.utf8EncodeChar).toByteArray.utf8DecodeChar? 0 = some c := by
      rw [List.toByteArray_append]
      exact ByteArray.utf8DecodeChar?_utf8EncodeChar_append
    have hdrop : (String.utf8EncodeChar c ++ cs.flatMap String.utf8EncodeChar).drop c.utf8Size =
        cs.flatMap String.utf8EncodeChar := by
      rw [← String.length_utf8EncodeChar, List.drop_left]
    rw [hb, List.cons_append] at hdecode hdrop
    rw [List.flatMap_cons, hb, List.cons_append, decodeLossy, hdecode]
    show c :: decodeLossy n _ = _
    rw [hdrop, ih n (by simpa using h)]

theorem fromUtf8Lossy_utf8 (s : String) : fromUtf8Lossy (utf8 s) = s := by
  have hlen : s.toList.length ≤ (utf8 s).length := by
    unfold utf8
    induction s.toList with
    | nil => exact Nat.le_refl 0
    | cons c cs ih =>
      have hpos : 0 < (String.utf8EncodeChar c).length := by
        rw [String.length_utf8EncodeChar]
        exact Char.utf8Size_pos c
      simp only [List.flatMap_cons, List.length_append, List.length_cons]
      omega
  show String.ofList (decodeLossy (utf8 s).length (s.toList.flatMap String.utf8EncodeChar)) = s
  rw [decodeLossy_encode _ _ hlen, String.ofList_toList]

end Text
