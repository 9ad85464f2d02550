import Mathlib

/-!
# Base64, RFC 4648

Three bytes are regrouped into four numbers below 64 and each of these is written as a character
of an alphabet; a shorter last group leaves unused bits, which are zero.

* `sextets`, `unsextets`: the regrouping and its inverse, which rejects nonzero unused bits;
* `Alphabet`, `Config`: the 64 characters, and whether the text is padded with `=` to a multiple
  of four;
* `encode`, `decode`, `decode_encode`, `encode_of_decode`: decoding is strict, it accepts the
  image of the encoding and nothing else;
* `Engine`: a codec with these two laws; `standard` and `urlSafeNoPad` are the two engines of the
  RFC's sections 4 and 5.
-/

namespace Base64

/-! ### Regrouping bits -/

/-- The groups of six bits of a byte string. -/
def sextets : List UInt8 → List ℕ
  | [] => []
  | [a] => [a.toNat / 4, a.toNat % 4 * 16]
  | [a, b] => [a.toNat / 4, a.toNat % 4 * 16 + b.toNat / 16, b.toNat % 16 * 4]
  | a :: b :: c :: bs =>
    a.toNat / 4 :: (a.toNat % 4 * 16 + b.toNat / 16) :: (b.toNat % 16 * 4 + c.toNat / 64) ::
      c.toNat % 64 :: sextets bs

/-- The byte string of some groups of six bits, if their number fits and the unused bits of the
last one are zero. -/
def unsextets : List ℕ → Option (List UInt8)
  | [] => some []
  | [_] => none
  | [w, x] => if x % 16 = 0 then some [UInt8.ofNat (w * 4 + x / 16)] else none
  | [w, x, y] =>
    if y % 4 = 0 then some [UInt8.ofNat (w * 4 + x / 16), UInt8.ofNat (x % 16 * 16 + y / 4)]
    else none
  | w :: x :: y :: z :: ns =>
    (unsextets ns).map fun bs =>
      UInt8.ofNat (w * 4 + x / 16) :: UInt8.ofNat (x % 16 * 16 + y / 4) ::
        UInt8.ofNat (y % 4 * 64 + z) :: bs

theorem ofNat_of_eq_toNat {n : ℕ} {b : UInt8} (h : n = b.toNat) : UInt8.ofNat n = b := by
  rw [h, UInt8.ofNat_toNat]

theorem toNat_ofNat {n : ℕ} (h : n < 256) : (UInt8.ofNat n).toNat = n :=
  UInt8.toNat_ofNat_of_lt' h

theorem sextets_lt (bs : List UInt8) : ∀ n ∈ sextets bs, n < 64 := by
  induction bs using sextets.induct with
  | case1 => simp [sextets]
  | case2 a =>
    have := UInt8.toNat_lt a
    simp only [sextets, List.mem_cons, List.not_mem_nil, or_false]
    rintro n (rfl | rfl) <;> omega
  | case3 a b =>
    have := UInt8.toNat_lt a
    have := UInt8.toNat_lt b
    simp only [sextets, List.mem_cons, List.not_mem_nil, or_false]
    rintro n (rfl | rfl | rfl) <;> omega
  | case4 a b c bs ih =>
    have := UInt8.toNat_lt a
    have := UInt8.toNat_lt b
    have := UInt8.toNat_lt c
    simp only [sextets, List.mem_cons]
    rintro n (rfl | rfl | rfl | rfl | h)
    · omega
    · omega
    · omega
    · omega
    · exact ih n h

theorem unsextets_sextets (bs : List UInt8) : unsextets (sextets bs) = some bs := by
  induction bs using sextets.induct with
  | case1 => rfl
  | case2 a =>
    have := UInt8.toNat_lt a
    rw [sextets, unsextets, if_pos (by omega), ofNat_of_eq_toNat (b := a) (by omega)]
  | case3 a b =>
    have := UInt8.toNat_lt a
    have := UInt8.toNat_lt b
    rw [sextets, unsextets, if_pos (by omega), ofNat_of_eq_toNat (b := a) (by omega),
      ofNat_of_eq_toNat (b := b) (by omega)]
  | case4 a b c bs ih =>
    have := UInt8.toNat_lt a
    have := UInt8.toNat_lt b
    have := UInt8.toNat_lt c
    rw [sextets, unsextets, ih, Option.map_some, ofNat_of_eq_toNat (b := a) (by omega),
      ofNat_of_eq_toNat (b := b) (by omega), ofNat_of_eq_toNat (b := c) (by omega)]

theorem sextets_of_unsextets {ns : List ℕ} {bs : List UInt8} (hns : ∀ n ∈ ns, n < 64)
    (h : unsextets ns = some bs) : sextets bs = ns := by
  induction ns using unsextets.induct generalizing bs with
  | case1 => cases h; rfl
  | case2 => cases h
  -- The bits that are left over at the end are zero, or nothing was decoded.
  | case3 w x hx =>
    rw [unsextets, if_pos hx] at h
    cases h
    simp only [List.mem_cons, List.not_mem_nil, or_false, forall_eq_or_imp, forall_eq] at hns
    rw [sextets, toNat_ofNat (by omega)]
    congr 1
    · omega
    · congr 1; omega
  | case4 w x hx => rw [unsextets, if_neg hx] at h; cases h
  | case5 w x y hy =>
    rw [unsextets, if_pos hy] at h
    cases h
    simp only [List.mem_cons, List.not_mem_nil, or_false, forall_eq_or_imp, forall_eq] at hns
    rw [sextets, toNat_ofNat (by omega), toNat_ofNat (by omega)]
    congr 1
    · omega
    · congr 1
      · omega
      · congr 1; omega
  | case6 w x y hy => rw [unsextets, if_neg hy] at h; cases h
  | case7 w x y z ns ih =>
    rw [unsextets] at h
    obtain ⟨bs', hbs', rfl⟩ := Option.map_eq_some_iff.1 h
    simp only [List.mem_cons, forall_eq_or_imp] at hns
    obtain ⟨hw, hx, hy, hz, hns⟩ := hns
    rw [sextets, toNat_ofNat (by omega), toNat_ofNat (by omega), toNat_ofNat (by omega),
      ih hns hbs']
    congr 1
    · omega
    · congr 1
      · omega
      · congr 1
        · omega
        · congr 1; omega

/-! ### Alphabets -/

/-- The characters of an encoding. -/
structure Alphabet where
  chars : List Char
  length_eq : chars.length = 64
  nodup : chars.Nodup
  pad_notMem : '=' ∉ chars

/-- The character of a number below 64. -/
def Alphabet.char (a : Alphabet) (n : ℕ) : Char := a.chars.getD n '='

/-- The number of a character. -/
def Alphabet.index (a : Alphabet) (c : Char) : Option ℕ := a.chars.idxOf? c

theorem Alphabet.char_mem (a : Alphabet) {n : ℕ} (h : n < 64) : a.char n ∈ a.chars := by
  have hlt : n < a.chars.length := by rw [a.length_eq]; exact h
  unfold char
  rw [List.getD_eq_getElem _ _ hlt]
  exact List.getElem_mem hlt

theorem Alphabet.index_char (a : Alphabet) {n : ℕ} (h : n < 64) :
    a.index (a.char n) = some n := by
  have hlt : n < a.chars.length := by rw [a.length_eq]; exact h
  unfold index char
  rw [List.getD_eq_getElem _ _ hlt, List.idxOf?_eq_some_iff]
  refine ⟨hlt, rfl, fun j hj heq => ?_⟩
  have hji : j = n := a.nodup.getElem_inj_iff.1 heq
  omega

theorem Alphabet.char_of_index (a : Alphabet) {c : Char} {n : ℕ} (h : a.index c = some n) :
    n < 64 ∧ a.char n = c := by
  obtain ⟨hlt, hc, -⟩ := List.idxOf?_eq_some_iff.1 h
  refine ⟨by rw [← a.length_eq]; exact hlt, ?_⟩
  unfold char
  rw [List.getD_eq_getElem _ _ hlt, hc]

theorem Alphabet.mapM_index_map_char (a : Alphabet) {ns : List ℕ} (h : ∀ n ∈ ns, n < 64) :
    (ns.map a.char).mapM a.index = some ns := by
  induction ns with
  | nil => rfl
  | cons n ns ih =>
    rw [List.map_cons, List.mapM_cons, a.index_char (h n (by simp)),
      ih fun k hk => h k (by simp [hk])]
    rfl

theorem Alphabet.map_char_of_mapM_index (a : Alphabet) {cs : List Char} {ns : List ℕ}
    (h : cs.mapM a.index = some ns) : (∀ n ∈ ns, n < 64) ∧ ns.map a.char = cs := by
  induction cs generalizing ns with
  | nil => cases h; simp
  | cons c cs ih =>
    rw [List.mapM_cons] at h
    obtain ⟨n, hn, h⟩ := Option.bind_eq_some_iff.1 h
    obtain ⟨ns', hns', h⟩ := Option.bind_eq_some_iff.1 h
    cases h
    obtain ⟨hlt, rfl⟩ := a.char_of_index hn
    obtain ⟨hlts, rfl⟩ := ih hns'
    exact ⟨by simpa using ⟨hlt, hlts⟩, rfl⟩

/-! ### Codecs -/

/-- An alphabet, and whether the text is padded. -/
structure Config where
  alphabet : Alphabet
  padded : Bool

/-- The padding of a text of `n` characters. -/
def Config.padding (cfg : Config) (n : ℕ) : List Char :=
  if cfg.padded then List.replicate ((4 - n % 4) % 4) '=' else []

/-- The encoding of a byte string. -/
def encode (cfg : Config) (bs : List UInt8) : String :=
  String.ofList ((sextets bs).map cfg.alphabet.char ++ cfg.padding (sextets bs).length)

/-- Strict decoding: the padding, the characters and the unused bits are all checked. -/
def decode (cfg : Config) (s : String) : Option (List UInt8) :=
  let body := s.toList.takeWhile (· ≠ '=')
  if s.toList = body ++ cfg.padding body.length then
    (body.mapM cfg.alphabet.index).bind unsextets
  else none

variable {cfg : Config}

theorem takeWhile_body {cs : List Char} (hcs : ∀ c ∈ cs, c ≠ '=') (n : ℕ) :
    (cs ++ cfg.padding n).takeWhile (· ≠ '=') = cs := by
  rw [List.takeWhile_append_of_pos (by simpa using hcs)]
  have hpad : (cfg.padding n).takeWhile (· ≠ '=') = [] := by
    unfold Config.padding
    split_ifs
    · cases (4 - n % 4) % 4 <;> simp [List.replicate_succ]
    · rfl
  rw [hpad, List.append_nil]

theorem decode_encode (cfg : Config) (bs : List UInt8) : decode cfg (encode cfg bs) = some bs := by
  have hbody : ∀ c ∈ (sextets bs).map cfg.alphabet.char, c ≠ '=' := by
    rintro c hc rfl
    obtain ⟨n, hn, hc⟩ := List.mem_map.1 hc
    exact cfg.alphabet.pad_notMem (hc ▸ cfg.alphabet.char_mem (sextets_lt bs n hn))
  simp only [decode, encode, String.toList_ofList]
  rw [takeWhile_body hbody, List.length_map, if_pos rfl,
    cfg.alphabet.mapM_index_map_char (sextets_lt bs), Option.bind_some, unsextets_sextets]

theorem encode_of_decode {s : String} {bs : List UInt8} (h : decode cfg s = some bs) :
    encode cfg bs = s := by
  unfold decode at h
  simp only at h
  split_ifs at h with hpad
  obtain ⟨ns, hns, hbs⟩ := Option.bind_eq_some_iff.1 h
  obtain ⟨hlt, hbody⟩ := cfg.alphabet.map_char_of_mapM_index hns
  rw [← hbody, List.length_map] at hpad
  rw [encode, sextets_of_unsextets hlt hbs, ← hpad, String.ofList_toList]

theorem mem_encode {bs : List UInt8} {c : Char} (h : c ∈ (encode cfg bs).toList) :
    c ∈ cfg.alphabet.chars ∨ c = '=' := by
  simp only [encode, String.toList_ofList, List.mem_append, List.mem_map] at h
  rcases h with ⟨n, hn, rfl⟩ | h
  · exact Or.inl (cfg.alphabet.char_mem (sextets_lt bs n hn))
  · unfold Config.padding at h
    split_ifs at h
    · exact Or.inr (List.eq_of_mem_replicate h)
    · cases h

/-! ### Engines -/

/-- A strict codec between byte strings and texts. -/
structure Engine where
  encode : List UInt8 → String
  decode : String → Option (List UInt8)
  decode_encode : ∀ bs, decode (encode bs) = some bs
  encode_of_decode : ∀ s bs, decode s = some bs → encode bs = s

/-- Strictness as an equivalence. -/
theorem Engine.decode_eq_some_iff (e : Engine) {s : String} {bs : List UInt8} :
    e.decode s = some bs ↔ s = e.encode bs := by
  constructor
  · intro h
    exact (e.encode_of_decode s bs h).symm
  · rintro rfl
    exact e.decode_encode bs

theorem Engine.encode_injective (e : Engine) : Function.Injective e.encode := by
  intro a b h
  have := congrArg e.decode h
  rwa [e.decode_encode, e.decode_encode, Option.some.injEq] at this

/-- The engine of a configuration. -/
def Config.engine (cfg : Config) : Engine where
  encode := Base64.encode cfg
  decode := Base64.decode cfg
  decode_encode := Base64.decode_encode cfg
  encode_of_decode _ _ h := Base64.encode_of_decode h

/-- Letters and digits, then two more characters. -/
def alphanumeric : String := "ABCDEFGHIJKLMNOPQRSTUVWXYZabcdefghijklmnopqrstuvwxyz0123456789"

/-- Section 4, with padding. -/
def standard : Engine := Config.engine
  { alphabet :=
      { chars := (alphanumeric ++ "+/").toList
        length_eq := by decide
        nodup := by decide
        pad_notMem := by decide }
    padded := true }

/-- Section 5, without padding. -/
def urlSafeNoPad : Engine := Config.engine
  { alphabet :=
      { chars := (alphanumeric ++ "-_").toList
        length_eq := by decide
        nodup := by decide
        pad_notMem := by decide }
    padded := false }

/-- A character outside the alphabet occurs in no encoded text. -/
theorem notMem_encode {bs : List UInt8} {c : Char} (h : c ∉ cfg.alphabet.chars) (hpad : c ≠ '=') :
    c ∉ (cfg.engine.encode bs).toList := by
  intro hc
  rcases mem_encode hc with hc | hc
  · exact h hc
  · exact hpad hc

theorem dot_notMem_urlSafeNoPad (bs : List UInt8) : '.' ∉ (urlSafeNoPad.encode bs).toList :=
  notMem_encode (by decide) (by decide)

end Base64
