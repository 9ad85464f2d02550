import OaLibs.Base.Unicode

/-!
# Email addresses

`validate.rs`: what counts as an email address, the form in which it is stored, and the whitelist of
domains.

* `isValidEmail`, `normalizeEmail`, `emailDomainAllowed`: the functions of the source;
* `isValidEmail_iff`: the grammar of valid addresses;
* `isAddress_lowered_iff`: the parts of an address keep their shape under normalization, except that
  a Kelvin sign in the domain becomes a letter;
* `isValidEmail_normalizeEmail_iff`: when normalization keeps the verdict;
* `emailDomainAllowed_spec`: what the whitelist admits;
* `validatePassword`, `isValidUsername`: passwords and usernames;
* `login_names_apart`: normalization merges no two usernames, and no username with an address.
-/

namespace OaLibs

namespace Validate

open Unicode

/-- The maximal length of an address, in bytes. -/
def emailMaxLen : ℕ := 254

def isValidEmail (email : String) : Bool :=
  let email := trim email
  if email.isEmpty || email.utf8ByteSize > emailMaxLen || email.toList.any isWhitespace then false
  else
    match Text.split '@' email with
    | [localPart, domain] =>
        if localPart.isEmpty || localPart.utf8ByteSize > 64 || domain.isEmpty then false
        else if !domain.toList.contains '.' || domain.toList.head? == some '.' ||
            domain.toList.getLast? == some '.' then false
        else
          (Text.split '.' domain).all fun label =>
            !label.isEmpty && label.toList.all fun c => c.isAlphanum || c == '-'
    | _ => false

/-- The form in which an address is stored. -/
def normalizeEmail (words : WordProperties) (email : String) : String :=
  toLowercase words (trim email)

/-- `str::trim_start_matches` with a character. -/
def trimStartMatches (c : Char) (s : String) : String := String.ofList (s.toList.dropWhile (· == c))

/-- `str::eq_ignore_ascii_case`. -/
def eqIgnoreAsciiCase (s t : String) : Bool :=
  s.toList.map Char.toLower == t.toList.map Char.toLower

/-- The whitelist of domains; an empty one admits every address. -/
def emailDomainAllowed (words : WordProperties) (email : String) (allowedDomains : List String) :
    Bool :=
  if allowedDomains.isEmpty then true
  else
    match Text.splitOnce '@' (toLowercase words (trim email)) with
    | none => false
    | some (_, domain) =>
        allowedDomains.any fun allowed =>
          eqIgnoreAsciiCase (trimStartMatches '@' (trim allowed)) domain

/-! ### The grammar -/

/-- The characters of a domain label. -/
def IsLabelChar (c : Char) : Prop := c.isAlphanum = true ∨ c = '-'

instance : DecidablePred IsLabelChar := fun _ => inferInstanceAs (Decidable (_ ∨ _))

/-- A text is an address with the given parts; `P` says which characters a domain label may have. -/
structure IsAddress (P : Char → Prop) (cs localPart domain : List Char) : Prop where
  split : cs.splitOn '@' = [localPart, domain]
  nonempty : localPart ≠ []
  free : ∀ c ∈ localPart, isWhitespace c = false
  dotted : 2 ≤ (domain.splitOn '.').length
  labels : ∀ label ∈ domain.splitOn '.', label ≠ [] ∧ ∀ c ∈ label, P c

theorem two_le_length_splitOn_iff {sep : Char} {cs : List Char} :
    2 ≤ (cs.splitOn sep).length ↔ sep ∈ cs := by
  constructor
  · intro h
    by_contra hnot
    rw [List.splitOn_eq_singleton hnot, List.length_singleton] at h
    omega
  · intro h
    obtain ⟨as, bs, rfl⟩ := List.append_of_mem h
    have has := List.length_pos_iff.2 (List.splitOn_ne_nil sep as)
    have hbs := List.length_pos_iff.2 (List.splitOn_ne_nil sep bs)
    rw [List.splitOn_append_cons_self, List.length_append]
    omega

theorem IsLabelChar.ascii {c : Char} (h : IsLabelChar c) : c.toNat < 128 := by
  rcases h with h | rfl
  · have hle : c.val ≤ 'z'.val := by
      simp only [Char.isAlphanum, Char.isAlpha, Char.isUpper, Char.isLower, Char.isDigit,
        Bool.or_eq_true, Bool.and_eq_true, decide_eq_true_eq] at h
      rcases h with (h | h) | h
      · exact UInt32.le_trans h.2 (by decide)
      · exact h.2
      · exact UInt32.le_trans h.2 (by decide)
    exact (UInt32.le_iff_toNat_le.1 hle).trans_lt (by decide)
  · decide

theorem IsLabelChar.isWhitespace {c : Char} (h : IsLabelChar c) : isWhitespace c = false := by
  have hascii := of_ascii (P := fun c => IsLabelChar c → Unicode.isWhitespace c = false)
    (by decide +kernel) h.ascii
  exact hascii h

/-- The dot checks of the source follow from the check of the labels. -/
theorem IsAddress.ends {P : Char → Prop} {cs localPart domain : List Char}
    (h : IsAddress P cs localPart domain) :
    domain.head? ≠ some '.' ∧ domain.getLast? ≠ some '.' := by
  constructor
  · intro hhead
    obtain ⟨rest, rfl⟩ := List.head?_eq_some_iff.1 hhead
    have hmem : [] ∈ ('.' :: rest).splitOn '.' := by
      simp [List.splitOn_cons_eq_if_modifyHead]
    exact (h.labels [] hmem).1 rfl
  · intro hlast
    obtain ⟨front, rfl⟩ := List.getLast?_eq_some_iff.1 hlast
    have hmem : [] ∈ (front ++ ['.']).splitOn '.' := by
      simp [List.splitOn_append_cons_self]
    exact (h.labels [] hmem).1 rfl

/-- There is no whitespace in an address. -/
theorem IsAddress.not_isWhitespace {cs localPart domain : List Char}
    (h : IsAddress IsLabelChar cs localPart domain) {c : Char} (hc : c ∈ cs) :
    isWhitespace c = false := by
  by_cases hat : c = '@'
  · subst hat
    decide
  obtain ⟨part, hpart, hc⟩ := Text.exists_mem_splitOn hc hat
  rw [h.split] at hpart
  rcases List.mem_pair.1 hpart with rfl | rfl
  · exact h.free c hc
  · by_cases hdot : c = '.'
    · subst hdot
      decide
    obtain ⟨label, hlabel, hc⟩ := Text.exists_mem_splitOn hc hdot
    exact ((h.labels label hlabel).2 c hc).isWhitespace

theorem split_eq_pair_iff {sep : Char} {s a b : String} :
    Text.split sep s = [a, b] ↔ s.toList.splitOn sep = [a.toList, b.toList] := by
  have hinj : Function.Injective (List.map String.ofList) :=
    List.map_injective_iff.2 fun _ _ h => String.ofList_injective h
  rw [← hinj.eq_iff]
  simp [Text.split]

/-- The check of the labels. -/
theorem all_labels_iff (domain : String) :
    ((Text.split '.' domain).all fun label =>
        !label.isEmpty && label.toList.all fun c => c.isAlphanum || c == '-') = true ↔
      ∀ label ∈ domain.toList.splitOn '.', label ≠ [] ∧ ∀ c ∈ label, IsLabelChar c := by
  simp [Text.split, List.all_eq_true, IsLabelChar]

/-- The chain of rejections, read as the grammar. -/
theorem isValidEmail_iff_isAddress (email : String) :
    isValidEmail email = true ↔ (trim email).utf8ByteSize ≤ emailMaxLen ∧
      ∃ localPart domain, IsAddress IsLabelChar (trim email).toList localPart domain ∧
        (localPart.map Char.utf8Size).sum ≤ 64 := by
  unfold isValidEmail
  simp only
  constructor
  -- Each check that the text has passed is one field of the grammar.
  · intro h
    split_ifs at h with hfirst
    split at h
    · rename_i localPart domain hsplit
      split_ifs at h with hlocal hdots
      rw [split_eq_pair_iff] at hsplit
      simp only [Bool.or_eq_true, not_or, decide_eq_true_eq, List.any_eq_true, not_exists,
        not_and, String.isEmpty_iff] at hfirst hlocal
      refine ⟨by omega, localPart.toList, domain.toList, ⟨hsplit, ?_, fun c hc => ?_, ?_, ?_⟩, ?_⟩
      · simpa using hlocal.1.1
      · have hmem : c ∈ (trim email).toList :=
          Text.mem_of_mem_splitOn (hsplit ▸ List.mem_cons_self) hc
        simpa using hfirst.2 c hmem
      · rw [two_le_length_splitOn_iff]
        simp only [Bool.or_eq_true, not_or, Bool.not_eq_true', Bool.not_eq_false] at hdots
        simpa using hdots.1.1
      · exact (all_labels_iff domain).1 h
      · rw [← utf8ByteSize_eq_sum]
        omega
    · cases h
  -- No check can fail; those of the dots at the ends follow from the labels not being empty.
  · rintro ⟨hlen, localPart, domain, haddr, hlocal⟩
    have hsplit : Text.split '@' (trim email) =
        [String.ofList localPart, String.ofList domain] := by
      rw [split_eq_pair_iff, String.toList_ofList, String.toList_ofList]
      exact haddr.split
    have hdot : '.' ∈ domain := two_le_length_splitOn_iff.1 haddr.dotted
    have hne : (trim email).toList ≠ [] := by
      intro hnil
      have hpair := haddr.split
      rw [hnil] at hpair
      cases hpair
    rw [if_neg, hsplit]
    · simp only
      rw [if_neg, if_neg, all_labels_iff, String.toList_ofList]
      · exact haddr.labels
      · have hends := haddr.ends
        simp [hdot, hends]
      · have hdomain : domain ≠ [] := List.ne_nil_of_mem hdot
        simp [haddr.nonempty, hdomain, utf8ByteSize_ofList, hlocal]
    · simp only [Bool.or_eq_true, not_or, decide_eq_true_eq, List.any_eq_true, not_exists, not_and,
        String.isEmpty_iff]
      refine ⟨⟨by simpa using hne, by omega⟩, fun c hc => ?_⟩
      simp [haddr.not_isWhitespace hc]

/-- A text in the grammar of addresses: a local part, `@`, and at least two labels joined by
dots. -/
structure IsEmail (text localPart : String) (labels : List String) : Prop where
  eq : text = localPart ++ "@" ++ String.intercalate "." labels
  size : 1 ≤ localPart.utf8ByteSize ∧ localPart.utf8ByteSize ≤ 64
  free : ∀ c ∈ localPart.toList, c ≠ '@' ∧ isWhitespace c = false
  dotted : 2 ≤ labels.length
  labels : ∀ label ∈ labels, label ≠ "" ∧ ∀ c ∈ label.toList, IsLabelChar c

theorem toList_eq_of_splitOn {cs localPart domain : List Char}
    (h : cs.splitOn '@' = [localPart, domain]) : cs = localPart ++ '@' :: domain := by
  have hjoin : ['@'].intercalate (cs.splitOn '@') = cs := List.intercalate_splitOn '@'
  rw [h] at hjoin
  simpa using hjoin.symm

/-- There is no `@` in the two parts. -/
theorem notMem_of_splitOn {cs localPart domain : List Char}
    (h : cs.splitOn '@' = [localPart, domain]) : '@' ∉ localPart ∧ '@' ∉ domain := by
  have hlength := congrArg List.length h
  rw [toList_eq_of_splitOn h, List.splitOn_append_cons_self, List.length_append] at hlength
  have hlocal := List.length_pos_iff.2 (List.splitOn_ne_nil '@' localPart)
  have hdomain := List.length_pos_iff.2 (List.splitOn_ne_nil '@' domain)
  rw [← two_le_length_splitOn_iff, ← two_le_length_splitOn_iff]
  simp only [List.length_cons, List.length_nil] at hlength
  omega

/-- The labels of an address are the parts of its domain. -/
theorem IsAddress.isEmail {text : String} {localPart domain : List Char}
    (h : IsAddress IsLabelChar text.toList localPart domain)
    (hsize : (localPart.map Char.utf8Size).sum ≤ 64) :
    IsEmail text (String.ofList localPart) ((domain.splitOn '.').map String.ofList) := by
  refine ⟨?_, ⟨?_, ?_⟩, fun c hc => ?_, ?_, fun label hlabel => ?_⟩
  · have hdomain : ['.'].intercalate (domain.splitOn '.') = domain := List.intercalate_splitOn '.'
    rw [← String.toList_inj, String.toList_append, String.toList_append, String.toList_intercalate,
      List.map_map, toList_eq_of_splitOn h.split]
    simp [Function.comp_def, hdomain]
  · have hne : String.ofList localPart ≠ "" := by simpa using h.nonempty
    exact Nat.one_le_iff_ne_zero.2 fun hzero => hne (String.utf8ByteSize_eq_zero_iff.1 hzero)
  · rwa [utf8ByteSize_ofList]
  · rw [String.toList_ofList] at hc
    refine ⟨?_, h.free c hc⟩
    rintro rfl
    exact (notMem_of_splitOn h.split).1 hc
  · rw [List.length_map]
    exact h.dotted
  · obtain ⟨part, hpart, rfl⟩ := List.mem_map.1 hlabel
    obtain ⟨hne, hchars⟩ := h.labels part hpart
    exact ⟨by simpa using hne, by simpa using hchars⟩

theorem IsEmail.isAddress {text localPart : String} {labels : List String}
    (h : IsEmail text localPart labels) :
    IsAddress IsLabelChar text.toList localPart.toList (String.intercalate "." labels).toList := by
  have hdot : ∀ label ∈ labels.map String.toList, '.' ∉ label := by
    intro label hlabel hmem
    obtain ⟨s, hs, rfl⟩ := List.mem_map.1 hlabel
    exact absurd ((h.labels s hs).2 '.' hmem) (by decide)
  have hne : labels.map String.toList ≠ [] := by
    have hdotted := h.dotted
    intro hnil
    rw [List.map_eq_nil_iff.1 hnil] at hdotted
    cases hdotted
  have hparts : (String.intercalate "." labels).toList.splitOn '.' = labels.map String.toList := by
    rw [String.toList_intercalate]
    exact List.splitOn_intercalate '.' hdot hne
  have hat : '@' ∉ (String.intercalate "." labels).toList := by
    intro hmem
    obtain ⟨part, hpart, hc⟩ := Text.exists_mem_splitOn hmem (show '@' ≠ '.' by decide)
    rw [hparts] at hpart
    obtain ⟨s, hs, rfl⟩ := List.mem_map.1 hpart
    exact absurd ((h.labels s hs).2 '@' hc) (by decide)
  refine ⟨?_, ?_, fun c hc => (h.free c hc).2, ?_, ?_⟩
  · have hfree : '@' ∉ localPart.toList := fun hmem => (h.free '@' hmem).1 rfl
    have htext : text.toList =
        localPart.toList ++ '@' :: (String.intercalate "." labels).toList := by
      rw [h.eq]
      simp
    rw [htext, List.splitOn_append_cons_self_of_not_mem hfree, List.splitOn_eq_singleton hat]
  · intro hnil
    have hsize := h.size.1
    rw [utf8ByteSize_eq_sum, hnil] at hsize
    cases hsize
  · rw [hparts, List.length_map]
    exact h.dotted
  · rw [hparts]
    intro label hlabel
    obtain ⟨s, hs, rfl⟩ := List.mem_map.1 hlabel
    obtain ⟨hempty, hchars⟩ := h.labels s hs
    exact ⟨by simpa using hempty, hchars⟩

/-- **An email is valid if and only if it is in the grammar.** -/
theorem isValidEmail_iff (email : String) :
    isValidEmail email = true ↔ (trim email).utf8ByteSize ≤ 254 ∧
      ∃ localPart labels, IsEmail (trim email) localPart labels := by
  rw [isValidEmail_iff_isAddress]
  refine and_congr_right fun _ => ⟨?_, ?_⟩
  · rintro ⟨localPart, domain, haddr, hsize⟩
    exact ⟨_, _, haddr.isEmail hsize⟩
  · rintro ⟨localPart, labels, hemail⟩
    refine ⟨_, _, hemail.isAddress, ?_⟩
    rw [← utf8ByteSize_eq_sum]
    exact hemail.size.2

/-! ### Normalization -/

/-- Label characters, and the Kelvin sign, whose lowercase mapping is the letter k. -/
def IsWideLabelChar (c : Char) : Prop := IsLabelChar c ∨ c = '\u212A'

instance : DecidablePred IsWideLabelChar := fun _ => inferInstanceAs (Decidable (_ ∨ _))

/-- The bytes of the lowercase mapping of a text. -/
def lowerSizeOf (cs : List Char) : ℕ := (cs.map lowerSize).sum

/-- The lowercase mappings that consist of label characters. -/
theorem forall_isLabelChar_image_iff {c : Char} {part : List Char}
    (h : LowerImage c part) : (∀ d ∈ part, IsLabelChar d) ↔ IsWideLabelChar c := by
  rcases h with rfl | ⟨rfl, rfl⟩
  · by_cases hc : c.toNat < 128
    · rw [toLower_of_ascii hc, List.forall_mem_singleton]
      exact of_ascii (P := fun c => IsLabelChar c.toLower ↔ IsWideLabelChar c)
        (by decide +kernel) hc
    · constructor
      · intro hall
        obtain ⟨d, rest, hcons⟩ := List.exists_cons_of_ne_nil (toLower_ne_nil c)
        have hmem : d ∈ toLower c := hcons ▸ List.mem_cons_self
        -- What becomes ASCII is ASCII, the Kelvin sign, or the dotted I, which keeps its dot.
        rcases ascii_of_mem_toLower hmem (hall d hmem).ascii with hlt | rfl | rfl
        · exact absurd hlt hc
        · exact .inr rfl
        · exact absurd (hall '\u0307' (by decide)).ascii (by decide)
      · rintro (hlabel | rfl)
        · exact absurd hlabel.ascii hc
        · have hkelvin : toLower '\u212A' = ['k'] := by decide +kernel
          rw [hkelvin, List.forall_mem_singleton]
          exact .inl (by decide)
  · exact ⟨fun hall => absurd (hall 'ς' (List.mem_singleton_self _)) (by decide),
      fun hwide => absurd hwide (by decide)⟩

theorem lowered_label_iff {label label' : List Char} (h : Lowered label label') :
    (label' ≠ [] ∧ ∀ c ∈ label', IsLabelChar c) ↔ label ≠ [] ∧ ∀ c ∈ label, IsWideLabelChar c := by
  rw [Ne, h.eq_nil_iff,
    h.forall_mem_iff fun _ _ himage => forall_isLabelChar_image_iff himage]

theorem forall_mem_forall₂_iff {α β : Type} {R : α → β → Prop} {P : α → Prop} {Q : β → Prop}
    (hPQ : ∀ a b, R a b → (Q b ↔ P a)) {as : List α} {bs : List β} (h : List.Forall₂ R as bs) :
    (∀ b ∈ bs, Q b) ↔ ∀ a ∈ as, P a := by
  induction h with
  | nil => simp
  | cons hab _ ih => rw [List.forall_mem_cons, List.forall_mem_cons, hPQ _ _ hab, ih]

/-- The two parts of an address are lowered on their own. -/
theorem split_of_lowered {cs ds l d : List Char} (h : Lowered cs ds)
    (hsplit : cs.splitOn '@' = [l, d]) :
    ∃ l' d', ds.splitOn '@' = [l', d'] ∧ Lowered l l' ∧ Lowered d d' := by
  have hparts : List.Forall₂ Lowered (cs.splitOn '@') (ds.splitOn '@') :=
    h.splitOn (by decide) (by decide +kernel)
  rw [hsplit] at hparts
  obtain ⟨l', rest, hl, hrest, heq⟩ := List.forall₂_cons_left_iff.1 hparts
  obtain ⟨d', rest', hd, hnil, rfl⟩ := List.forall₂_cons_left_iff.1 hrest
  cases hnil
  exact ⟨l', d', heq, hl, hd⟩

theorem unsplit_of_lowered {cs ds l' d' : List Char} (h : Lowered cs ds)
    (hsplit : ds.splitOn '@' = [l', d']) :
    ∃ l d, cs.splitOn '@' = [l, d] ∧ Lowered l l' ∧ Lowered d d' := by
  have hparts : List.Forall₂ Lowered (cs.splitOn '@') (ds.splitOn '@') :=
    h.splitOn (by decide) (by decide +kernel)
  rw [hsplit] at hparts
  obtain ⟨l, rest, hl, hrest, heq⟩ := List.forall₂_cons_right_iff.1 hparts
  obtain ⟨d, rest', hd, hnil, rfl⟩ := List.forall₂_cons_right_iff.1 hrest
  cases hnil
  exact ⟨l, d, heq, hl, hd⟩

/-- The parts of an address keep their shape, except that a Kelvin sign in the domain becomes a
letter. -/
theorem isAddress_lowered_iff {cs ds l d l' d' : List Char} (hl : Lowered l l') (hd : Lowered d d')
    (hsplit : cs.splitOn '@' = [l, d]) (hsplit' : ds.splitOn '@' = [l', d']) :
    IsAddress IsLabelChar ds l' d' ↔ IsAddress IsWideLabelChar cs l d := by
  have hparts : List.Forall₂ Lowered (d.splitOn '.') (d'.splitOn '.') :=
    hd.splitOn (by decide) (by decide +kernel)
  have hnil : l' = [] ↔ l = [] := hl.eq_nil_iff
  have hfree : (∀ c ∈ l', isWhitespace c = false) ↔ ∀ c ∈ l, isWhitespace c = false := by
    refine hl.forall_mem_iff fun c part himage => ⟨fun hall => ?_, fun hc e he => ?_⟩
    · obtain ⟨e, rest, hcons⟩ := List.exists_cons_of_ne_nil himage.ne_nil
      have hmem : e ∈ part := hcons ▸ List.mem_cons_self
      rw [← himage.isWhitespace hmem]
      exact hall e hmem
    · rw [himage.isWhitespace he]
      exact hc
  have hlabels := forall_mem_forall₂_iff (fun _ _ h => lowered_label_iff h) hparts
  constructor
  · rintro ⟨-, hne, hf, hdotted, hlab⟩
    exact ⟨hsplit, fun h => hne (hnil.2 h), hfree.1 hf, hparts.length_eq ▸ hdotted, hlabels.1 hlab⟩
  · rintro ⟨-, hne, hf, hdotted, hlab⟩
    exact ⟨hsplit', fun h => hne (hnil.1 h), hfree.2 hf, hparts.length_eq ▸ hdotted,
      hlabels.2 hlab⟩

theorem lowered_normalizeEmail (words : WordProperties) (email : String) :
    Lowered (trim email).toList (normalizeEmail words email).toList := by
  unfold normalizeEmail toLowercase
  rw [String.toList_ofList]
  exact lowered_lowerFrom [] _

/-- A normalized address has nothing left to be trimmed. -/
theorem trim_normalizeEmail (words : WordProperties) (email : String) :
    trim (normalizeEmail words email) = normalizeEmail words email := by
  have hends : EndsFree (trim email).toList := by
    unfold trim
    rw [String.toList_ofList]
    exact endsFree_trimList _
  rw [trim, ((lowered_normalizeEmail words email).endsFree hends).trimList_eq, String.ofList_toList]

/-- What a normalized address is checked for, in terms of the address before. -/
theorem isValidEmail_normalizeEmail (words : WordProperties) (email : String) :
    isValidEmail (normalizeEmail words email) = true ↔
      lowerSizeOf (trim email).toList ≤ emailMaxLen ∧
        ∃ localPart domain, IsAddress IsWideLabelChar (trim email).toList localPart domain ∧
          lowerSizeOf localPart ≤ 64 := by
  have hlowered := lowered_normalizeEmail words email
  rw [isValidEmail_iff_isAddress, trim_normalizeEmail, utf8ByteSize_eq_sum, hlowered.size]
  refine and_congr_right fun _ => ⟨?_, ?_⟩
  · rintro ⟨l', d', haddr, hsize⟩
    obtain ⟨l, d, hsplit, hl, hd⟩ := unsplit_of_lowered hlowered haddr.split
    refine ⟨l, d, (isAddress_lowered_iff hl hd hsplit haddr.split).1 haddr, ?_⟩
    rwa [lowerSizeOf, ← hl.size]
  · rintro ⟨l, d, haddr, hsize⟩
    obtain ⟨l', d', hsplit', hl, hd⟩ := split_of_lowered hlowered haddr.split
    refine ⟨l', d', (isAddress_lowered_iff hl hd haddr.split hsplit').2 haddr, ?_⟩
    rwa [hl.size]

/-- The limits on the bytes of an address and of its local part; `size` says with how many bytes a
character counts. -/
def WithinLimits (size : Char → ℕ) (text localPart : List Char) : Prop :=
  (text.map size).sum ≤ emailMaxLen ∧ (localPart.map size).sum ≤ 64

/-- When normalization keeps the verdict on a trimmed text. The shape of an address is that of a
local part and labels over ASCII letters, digits, `-` and the Kelvin sign. -/
inductive KeepsVerdict (text : List Char) : Prop
  /-- The text has not that shape: it is invalid before and after. -/
  | shape (h : ∀ localPart domain, ¬ IsAddress IsWideLabelChar text localPart domain)
  /-- It has no Kelvin sign in the domain, and is within the limits before and after. -/
  | within {localPart domain : List Char} (haddr : IsAddress IsWideLabelChar text localPart domain)
      (hkelvin : '\u212A' ∉ domain) (hbefore : WithinLimits Char.utf8Size text localPart)
      (hafter : WithinLimits lowerSize text localPart)
  /-- It has no Kelvin sign in the domain, and exceeds a limit before and after. -/
  | exceeding {localPart domain : List Char}
      (haddr : IsAddress IsWideLabelChar text localPart domain) (hkelvin : '\u212A' ∉ domain)
      (hbefore : ¬ WithinLimits Char.utf8Size text localPart)
      (hafter : ¬ WithinLimits lowerSize text localPart)
  /-- It is invalid because of a Kelvin sign in the domain, and exceeds a limit after. -/
  | kelvin {localPart domain : List Char} (haddr : IsAddress IsWideLabelChar text localPart domain)
      (hkelvin : '\u212A' ∈ domain) (hafter : ¬ WithinLimits lowerSize text localPart)

theorem isAddress_iff_wide {cs localPart domain : List Char} :
    IsAddress IsLabelChar cs localPart domain ↔
      IsAddress IsWideLabelChar cs localPart domain ∧ '\u212A' ∉ domain := by
  constructor
  · intro h
    refine ⟨⟨h.split, h.nonempty, h.free, h.dotted, fun label hlabel => ?_⟩, fun hmem => ?_⟩
    · obtain ⟨hne, hchars⟩ := h.labels label hlabel
      exact ⟨hne, fun c hc => .inl (hchars c hc)⟩
    · obtain ⟨label, hlabel, hc⟩ := Text.exists_mem_splitOn hmem (show '\u212A' ≠ '.' by decide)
      exact absurd ((h.labels label hlabel).2 _ hc) (by decide)
  · rintro ⟨h, hkelvin⟩
    refine ⟨h.split, h.nonempty, h.free, h.dotted, fun label hlabel => ?_⟩
    obtain ⟨hne, hchars⟩ := h.labels label hlabel
    refine ⟨hne, fun c hc => (hchars c hc).resolve_right ?_⟩
    rintro rfl
    exact hkelvin (Text.mem_of_mem_splitOn hlabel hc)

/-- The parts of an address are unique. -/
theorem IsAddress.unique {P Q : Char → Prop} {cs l d l' d' : List Char} (h : IsAddress P cs l d)
    (h' : IsAddress Q cs l' d') : l' = l ∧ d' = d := by
  have hsplit := h'.split.symm.trans h.split
  simpa using hsplit

/-- A text has the shape of an address in one way at most. -/
theorem keepsVerdict_iff {text l d : List Char} (haddr : IsAddress IsWideLabelChar text l d) :
    KeepsVerdict text ↔
      ('\u212A' ∉ d ∧ WithinLimits Char.utf8Size text l ↔ WithinLimits lowerSize text l) := by
  constructor
  · rintro (h | ⟨haddr', hkelvin, hbefore, hafter⟩ | ⟨haddr', hkelvin, hbefore, hafter⟩ |
      ⟨haddr', hkelvin, hafter⟩)
    · exact absurd haddr (h l d)
    · obtain ⟨rfl, rfl⟩ := haddr.unique haddr'
      exact iff_of_true ⟨hkelvin, hbefore⟩ hafter
    · obtain ⟨rfl, rfl⟩ := haddr.unique haddr'
      exact iff_of_false (fun h => hbefore h.2) hafter
    · obtain ⟨rfl, rfl⟩ := haddr.unique haddr'
      exact iff_of_false (fun h => h.1 hkelvin) hafter
  · intro h
    by_cases hkelvin : '\u212A' ∈ d
    · exact .kelvin haddr hkelvin fun hafter => (h.2 hafter).1 hkelvin
    · by_cases hbefore : WithinLimits Char.utf8Size text l
      · exact .within haddr hkelvin hbefore (h.1 ⟨hkelvin, hbefore⟩)
      · exact .exceeding haddr hkelvin hbefore fun hafter => hbefore (h.2 hafter).2

/-- **Normalization keeps the verdict on an email if and only if the condition holds.** -/
theorem isValidEmail_normalizeEmail_iff (words : WordProperties) (email : String) :
    isValidEmail (normalizeEmail words email) = isValidEmail email ↔
      KeepsVerdict (trim email).toList := by
  rw [Bool.eq_iff_iff, isValidEmail_normalizeEmail, isValidEmail_iff_isAddress, utf8ByteSize_eq_sum]
  by_cases haddr : ∃ l d, IsAddress IsWideLabelChar (trim email).toList l d
  · obtain ⟨l, d, haddr⟩ := haddr
    have hafter : (∃ l' d', IsAddress IsWideLabelChar (trim email).toList l' d' ∧
        lowerSizeOf l' ≤ 64) ↔ lowerSizeOf l ≤ 64 := by
      constructor
      · rintro ⟨l', d', haddr', hsize⟩
        obtain ⟨rfl, rfl⟩ := haddr.unique haddr'
        exact hsize
      · exact fun hsize => ⟨l, d, haddr, hsize⟩
    have hbefore : (∃ l' d', IsAddress IsLabelChar (trim email).toList l' d' ∧
        (l'.map Char.utf8Size).sum ≤ 64) ↔
          '\u212A' ∉ d ∧ (l.map Char.utf8Size).sum ≤ 64 := by
      constructor
      · rintro ⟨l', d', haddr', hsize⟩
        obtain ⟨rfl, rfl⟩ := haddr.unique haddr'
        exact ⟨(isAddress_iff_wide.1 haddr').2, hsize⟩
      · exact fun ⟨hkelvin, hsize⟩ => ⟨l, d, isAddress_iff_wide.2 ⟨haddr, hkelvin⟩, hsize⟩
    rw [hafter, hbefore, keepsVerdict_iff haddr]
    exact ⟨fun h => and_left_comm.trans h.symm, fun h => (and_left_comm.trans h).symm⟩
  · have hafter : ¬ ∃ l d, IsAddress IsWideLabelChar (trim email).toList l d ∧
        lowerSizeOf l ≤ 64 := fun ⟨l, d, h, _⟩ => haddr ⟨l, d, h⟩
    have hbefore : ¬ ∃ l d, IsAddress IsLabelChar (trim email).toList l d ∧
        (l.map Char.utf8Size).sum ≤ 64 :=
      fun ⟨l, d, h, _⟩ => haddr ⟨l, d, (isAddress_iff_wide.1 h).1⟩
    have hkeeps : KeepsVerdict (trim email).toList := .shape fun l d h => haddr ⟨l, d, h⟩
    exact ⟨fun _ => hkeeps, fun _ => ⟨fun h => absurd h.2 hafter, fun h => absurd h.2 hbefore⟩⟩

/-- An address in ASCII keeps its verdict. -/
theorem keepsVerdict_of_ascii {text : List Char} (h : ∀ c ∈ text, c.toNat < 128) :
    KeepsVerdict text := by
  by_cases haddr : ∃ l d, IsAddress IsWideLabelChar text l d
  · obtain ⟨l, d, haddr⟩ := haddr
    have hparts := toList_eq_of_splitOn haddr.split
    have hsize : ∀ c ∈ text, lowerSize c = c.utf8Size := fun c hc =>
      of_ascii (P := fun c => lowerSize c = c.utf8Size) (by decide +kernel) (h c hc)
    have hlocal : ∀ c ∈ l, lowerSize c = c.utf8Size := fun c hc =>
      hsize c (hparts ▸ List.mem_append_left _ hc)
    have hkelvin : '\u212A' ∉ d := by
      intro hmem
      have hlt := h '\u212A' (hparts ▸ List.mem_append_right _ (List.mem_cons_of_mem _ hmem))
      exact absurd hlt (by decide)
    rw [keepsVerdict_iff haddr, WithinLimits, WithinLimits, List.map_congr_left hsize,
      List.map_congr_left hlocal]
    exact and_iff_right hkelvin
  · exact .shape fun l d h => haddr ⟨l, d, h⟩

/-- A rejected address with a Kelvin sign in its domain becomes valid, and a valid one with a local
part of 64 bytes becomes too long. -/
theorem isValidEmail_normalizeEmail_ne :
    (isValidEmail "a@b.\u212A" = false ∧
      isValidEmail (normalizeEmail ⟨Char.isAlpha, fun _ => false⟩ "a@b.\u212A") = true) ∧
    isValidEmail (String.ofList (List.replicate 32 '\u0130') ++ "@b.c") = true ∧
    isValidEmail (normalizeEmail ⟨Char.isAlpha, fun _ => false⟩
      (String.ofList (List.replicate 32 '\u0130') ++ "@b.c")) = false := by
  decide +kernel

/-! ### The whitelist -/

theorem ascii_of_ascii_toLower {c : Char} (h : c.toLower.toNat < 128) : c.toNat < 128 := by
  by_cases hupper : c.isUpper
  · simp only [Char.isUpper, decide_eq_true_eq] at hupper
    exact (UInt32.le_iff_toNat_le.1 hupper.2).trans_lt (by decide)
  · rwa [Char.toLower_eq_of_not_isUpper hupper] at h

/-- Only `@` itself becomes `@` in lowercase. -/
theorem eq_at_of_toLower {c : Char} (h : c.toLower = '@') : c = '@' := by
  have halpha : c.isAlpha = false := by
    rw [← Char.isAlpha_toLower_eq_isAlpha, h]
    decide
  have hupper : ¬ c.isUpper = true := by
    intro hupper
    rw [Char.isAlpha, hupper] at halpha
    cases halpha
  rwa [Char.toLower_eq_of_not_isUpper hupper] at h

/-- Texts that differ in ASCII case only are split at the same places. -/
theorem split_of_map_toLower {cs cs' l d : List Char}
    (h : cs'.map Char.toLower = cs.map Char.toLower) (hsplit : cs.splitOn '@' = [l, d]) :
    ∃ l' d', cs'.splitOn '@' = [l', d'] ∧ d'.map Char.toLower = d.map Char.toLower := by
  have hat : ∀ as : List Char, (as.map Char.toLower).splitOn '@' =
      (as.splitOn '@').map (List.map Char.toLower) := by
    intro as
    exact Text.splitOn_map (f := Char.toLower) (a := '@') fun c _ hc => eq_at_of_toLower hc
  have hparts : (cs'.splitOn '@').map (List.map Char.toLower) =
      [l.map Char.toLower, d.map Char.toLower] := by
    rw [← hat, h, hat, hsplit]
    rfl
  obtain ⟨l', rest, heq, -, hrest⟩ := List.map_eq_cons_iff.1 hparts
  obtain ⟨d', rest', rfl, hd, hnil⟩ := List.map_eq_cons_iff.1 hrest
  rw [List.map_eq_nil_iff.1 hnil] at heq
  exact ⟨l', d', heq, hd⟩

theorem ascii_toLower {c : Char} (h : c.toNat < 128) : c.toLower.toNat < 128 :=
  of_ascii (P := fun c => c.toLower.toNat < 128) (by decide +kernel) h

/-- The domain of an address is ASCII. -/
theorem IsAddress.ascii_domain {cs localPart domain : List Char}
    (h : IsAddress IsLabelChar cs localPart domain) : ∀ c ∈ domain, c.toNat < 128 := by
  intro c hc
  by_cases hdot : c = '.'
  · subst hdot
    decide
  obtain ⟨label, hlabel, hc⟩ := Text.exists_mem_splitOn hc hdot
  exact ((h.labels label hlabel).2 c hc).ascii

theorem lowered_ascii {cs ds : List Char} (h : Lowered cs ds) (hcs : ∀ c ∈ cs, c.toNat < 128) :
    ds = cs.map Char.toLower := by
  induction h with
  | nil => rfl
  | @cons c cs part ds himage _ ih =>
    have hc := hcs c List.mem_cons_self
    rw [ih fun d hd => hcs d (List.mem_cons_of_mem c hd), List.map_cons]
    rcases himage with rfl | ⟨rfl, -⟩
    · rw [toLower_of_ascii hc, List.singleton_append]
    · exact absurd hc (by decide)

theorem eqIgnoreAsciiCase_congr (s : String) {ds ds' : List Char}
    (h : ds.map Char.toLower = ds'.map Char.toLower) :
    eqIgnoreAsciiCase s (String.ofList ds) = eqIgnoreAsciiCase s (String.ofList ds') := by
  rw [eqIgnoreAsciiCase, eqIgnoreAsciiCase, String.toList_ofList, String.toList_ofList, h]

/-- The whitelist looks at the part after the only `@`, up to ASCII case. -/
theorem emailDomainAllowed_eq (words : WordProperties) {email : String}
    {localPart domain : List Char}
    (hsplit : (trim email).toList.splitOn '@' = [localPart, domain])
    (hascii : ∀ c ∈ domain, c.toNat < 128) {allowed : List String} (hne : allowed ≠ []) :
    emailDomainAllowed words email allowed =
      allowed.any fun entry =>
        eqIgnoreAsciiCase (trimStartMatches '@' (trim entry)) (String.ofList domain) := by
  obtain ⟨l', d', hsplit', -, hd⟩ :=
    split_of_lowered (lowered_normalizeEmail words email) hsplit
  have hat : '@' ∉ (String.ofList l').toList := by
    rw [String.toList_ofList]
    exact (notMem_of_splitOn hsplit').1
  have htext : toLowercase words (trim email) =
      String.ofList l' ++ String.singleton '@' ++ String.ofList d' := by
    rw [← String.toList_inj]
    show (normalizeEmail words email).toList = _
    rw [toList_eq_of_splitOn hsplit']
    simp
  have hlower : d'.map Char.toLower = domain.map Char.toLower := by
    rw [lowered_ascii hd hascii, List.map_map]
    exact List.map_congr_left fun c _ => Char.toLower_toLower_eq_toLower c
  unfold emailDomainAllowed
  rw [if_neg (by simpa using hne), htext, Text.splitOnce_append_sep hat]
  exact congrArg allowed.any (funext fun entry => eqIgnoreAsciiCase_congr _ hlower)

/-- **The whitelist admits exactly the listed domains**, whatever the case of the address and the
whitespace around it are, and in whatever order and how often the domains are listed. -/
theorem emailDomainAllowed_spec (words : WordProperties) (email : String) (allowed : List String)
    (hvalid : isValidEmail email = true) (hne : allowed ≠ []) :
    (∃ localPart domain, trim email = localPart ++ "@" ++ domain ∧ '@' ∉ localPart.toList ∧
      '@' ∉ domain.toList ∧ (emailDomainAllowed words email allowed = true ↔
        ∃ entry ∈ allowed, eqIgnoreAsciiCase (trimStartMatches '@' (trim entry)) domain = true)) ∧
    emailDomainAllowed words (normalizeEmail words email) allowed =
      emailDomainAllowed words email allowed ∧
    (∀ email', eqIgnoreAsciiCase (trim email') (trim email) = true →
      emailDomainAllowed words email' allowed = emailDomainAllowed words email allowed) ∧
    ∀ allowed', (∀ entry, entry ∈ allowed' ↔ entry ∈ allowed) →
      emailDomainAllowed words email allowed' = emailDomainAllowed words email allowed := by
  obtain ⟨-, l, d, haddr, -⟩ := (isValidEmail_iff_isAddress email).1 hvalid
  have hascii := haddr.ascii_domain
  have hallowed := emailDomainAllowed_eq words haddr.split hascii hne
  refine ⟨⟨String.ofList l, String.ofList d, ?_, ?_, ?_, ?_⟩, ?_, fun email' hcase => ?_,
    fun allowed' hsame => ?_⟩
  · rw [← String.toList_inj, toList_eq_of_splitOn haddr.split]
    simp
  · rw [String.toList_ofList]
    exact (notMem_of_splitOn haddr.split).1
  · rw [String.toList_ofList]
    exact (notMem_of_splitOn haddr.split).2
  · rw [hallowed, List.any_eq_true]
  · obtain ⟨l', d', hsplit', -, hd⟩ :=
      split_of_lowered (lowered_normalizeEmail words email) haddr.split
    have hlower := lowered_ascii hd hascii
    rw [← trim_normalizeEmail] at hsplit'
    rw [hallowed, emailDomainAllowed_eq words hsplit' _ hne]
    · refine congrArg allowed.any (funext fun entry => eqIgnoreAsciiCase_congr _ ?_)
      rw [hlower, List.map_map]
      exact List.map_congr_left fun c _ => Char.toLower_toLower_eq_toLower c
    · rw [hlower]
      intro c hc
      obtain ⟨x, hx, rfl⟩ := List.mem_map.1 hc
      exact ascii_toLower (hascii x hx)
  · have hmap : (trim email').toList.map Char.toLower = (trim email).toList.map Char.toLower :=
      eq_of_beq hcase
    obtain ⟨l', d', hsplit', hlower⟩ := split_of_map_toLower hmap haddr.split
    rw [hallowed, emailDomainAllowed_eq words hsplit' _ hne]
    · exact congrArg allowed.any (funext fun entry => eqIgnoreAsciiCase_congr _ hlower)
    · intro c hc
      have hmem : c.toLower ∈ d.map Char.toLower := hlower ▸ List.mem_map_of_mem hc
      obtain ⟨x, hx, heq⟩ := List.mem_map.1 hmem
      exact ascii_of_ascii_toLower (heq ▸ ascii_toLower (hascii x hx))
  · have hne' : allowed' ≠ [] := by
      rintro rfl
      obtain ⟨entry, hentry⟩ := List.exists_mem_of_ne_nil allowed hne
      exact List.not_mem_nil ((hsame entry).2 hentry)
    rw [hallowed, emailDomainAllowed_eq words haddr.split hascii hne', Bool.eq_iff_iff,
      List.any_eq_true, List.any_eq_true]
    simp only [hsame]

theorem emailDomainAllowed_spec_school :
    emailDomainAllowed ⟨Char.isAlpha, fun _ => false⟩ "a@SCHOOL.edu.cn "
        ["club.example.com", "@school.edu.cn"] =
      emailDomainAllowed ⟨Char.isAlpha, fun _ => false⟩ " A@School.edu.cn"
        ["club.example.com", "@school.edu.cn"] ∧
    emailDomainAllowed ⟨Char.isAlpha, fun _ => false⟩ " A@School.edu.cn"
      ["club.example.com", "@school.edu.cn"] = true := by
  have hspec := emailDomainAllowed_spec ⟨Char.isAlpha, fun _ => false⟩ " A@School.edu.cn"
    ["club.example.com", "@school.edu.cn"] (by decide +kernel) (List.cons_ne_nil _ _)
  exact ⟨hspec.2.2.1 "a@SCHOOL.edu.cn " (by decide +kernel), by decide +kernel⟩

/-! ### Usernames and passwords -/

def passwordMinLen : ℕ := 8

def passwordMaxLen : ℕ := 128

def usernameMinLen : ℕ := 3

def usernameMaxLen : ℕ := 32

/-- The rules for a password, in the order in which they are checked; an error is a stable key. -/
def validatePassword (password : String) : Except String Unit :=
  if password.length < passwordMinLen then .error "password.too_short"
  else if passwordMaxLen < password.length then .error "password.too_long"
  else if !password.toList.any Char.isAlpha then .error "password.missing_letter"
  else if !password.toList.any Char.isDigit then .error "password.missing_digit"
  else .ok ()

theorem validatePassword_ok_iff (password : String) :
    validatePassword password = .ok () ↔
      (passwordMinLen ≤ password.length ∧ password.length ≤ passwordMaxLen) ∧
      (∃ c ∈ password.toList, c.isAlpha = true) ∧ ∃ c ∈ password.toList, c.isDigit = true := by
  rw [← List.any_eq_true, ← List.any_eq_true, ← not_lt, ← not_lt]
  unfold validatePassword
  split_ifs with hshort hlong halpha hdigit
  · exact iff_of_false nofun fun h => h.1.1 hshort
  · exact iff_of_false nofun fun h => h.1.2 hlong
  · exact iff_of_false nofun fun h => by simp [h.2.1] at halpha
  · exact iff_of_false nofun fun h => by simp [h.2.2] at hdigit
  · refine iff_of_true rfl ⟨⟨hshort, hlong⟩, ?_, ?_⟩
    · simpa using halpha
    · simpa using hdigit

/-- The characters of a username. -/
def usernameChar (c : Char) : Bool :=
  c.isLower || c.isDigit || c == '.' || c == '_' || c == '-'

def isValidUsername (username : String) : Bool :=
  let len := username.length
  if !(usernameMinLen ≤ len && len ≤ usernameMaxLen) then false
  else
    match username.toList with
    | [] => false
    | first :: _ =>
        if !first.isAlphanum then false
        else username.toList.all usernameChar

/-- The code points of these characters. -/
theorem toNat_of_usernameChar {c : Char} (h : usernameChar c = true) :
    (97 ≤ c.toNat ∧ c.toNat ≤ 122) ∨ (48 ≤ c.toNat ∧ c.toNat ≤ 57) ∨ c.toNat = 46 ∨
      c.toNat = 95 ∨ c.toNat = 45 := by
  simp only [usernameChar, Char.isLower, Char.isDigit, Bool.or_eq_true, Bool.and_eq_true,
    decide_eq_true_eq, beq_iff_eq, ge_iff_le, UInt32.le_iff_toNat_le] at h
  rcases h with (((h | h) | rfl) | rfl) | rfl
  · exact .inl h
  · exact .inr (.inl h)
  all_goals decide

theorem ascii_of_usernameChar {c : Char} (h : usernameChar c = true) : c.toNat < 128 := by
  have hcode := toNat_of_usernameChar h
  omega

/-- A character of a username is a lowercase character, no whitespace and no `@`. -/
theorem usernameChar_spec {c : Char} (h : usernameChar c = true) :
    c.isUpper = false ∧ c.toLower = c ∧ isWhitespace c = false ∧ c ≠ '@' ∧ c.utf8Size = 1 := by
  have hcode := toNat_of_usernameChar h
  have hupper : ¬ (c.val ≥ 'A'.val ∧ c.val ≤ 'Z'.val) := by
    rw [ge_iff_le, UInt32.le_iff_toNat_le, UInt32.le_iff_toNat_le]
    show ¬ (65 ≤ c.toNat ∧ c.toNat ≤ 90)
    omega
  refine ⟨decide_eq_false hupper, dif_neg hupper, ?_, ?_, ?_⟩
  · have hranges : ∀ range ∈ whiteSpace, ¬ (range.1 ≤ c.toNat ∧ c.toNat ≤ range.2) := by
      simp only [whiteSpace, List.forall_mem_cons, List.not_mem_nil, false_implies, implies_true,
        and_true]
      omega
    rw [isWhitespace, List.any_eq_false]
    intro range hrange
    simpa using hranges range hrange
  · rintro rfl
    revert hcode
    decide
  · rw [Char.utf8Size_eq_one_iff, UInt32.le_iff_toNat_le]
    show c.toNat ≤ 127
    omega

/-- A username has 3 to 32 characters of those that are allowed and starts with a letter or a
digit; as its letters are lowercase, so is the first one. -/
theorem isValidUsername_iff (username : String) :
    isValidUsername username = true ↔
      (usernameMinLen ≤ username.length ∧ username.length ≤ usernameMaxLen) ∧
      (∀ c ∈ username.toList, usernameChar c = true) ∧
      ∃ first ∈ username.toList.head?, first.isLower = true ∨ first.isDigit = true := by
  have hfirst : ∀ c : Char, usernameChar c = true →
      (c.isAlphanum = true ↔ c.isLower = true ∨ c.isDigit = true) := by
    intro c hc
    rw [Char.isAlphanum, Char.isAlpha, (usernameChar_spec hc).1, Bool.false_or, Bool.or_eq_true]
  unfold isValidUsername
  simp only
  by_cases hlen : usernameMinLen ≤ username.length ∧ username.length ≤ usernameMaxLen
  · rw [if_neg (by simpa using hlen), and_iff_right hlen]
    cases hcs : username.toList with
    | nil => simp
    | cons first rest =>
      simp only [List.head?_cons, Option.mem_some_iff, exists_eq_left']
      constructor
      · intro h
        split_ifs at h with halnum
        have hall := List.all_eq_true.1 h
        rw [Bool.not_eq_true', Bool.not_eq_false] at halnum
        exact ⟨hall, (hfirst first (hall first List.mem_cons_self)).1 halnum⟩
      · rintro ⟨hall, hstart⟩
        have halnum := (hfirst first (hall first List.mem_cons_self)).2 hstart
        rw [halnum]
        exact List.all_eq_true.2 hall
  · rw [if_pos (by simpa [or_iff_not_imp_left] using hlen)]
    exact iff_of_false (by simp) fun h => hlen h.1

/-- A valid username is what normalization makes of it, it has as many bytes as characters, and it
is no valid address. -/
theorem username_stable (words : WordProperties) {username : String}
    (h : isValidUsername username = true) :
    normalizeEmail words username = username ∧ username.utf8ByteSize = username.length ∧
      isValidEmail username = false := by
  obtain ⟨-, hchars, -⟩ := (isValidUsername_iff username).1 h
  have hends : EndsFree username.toList :=
    ⟨fun c hc => (usernameChar_spec (hchars c (List.mem_of_mem_head? hc))).2.2.1,
      fun c hc => (usernameChar_spec (hchars c (List.mem_of_mem_getLast? hc))).2.2.1⟩
  have htrim : trim username = username := by
    rw [trim, hends.trimList_eq, String.ofList_toList]
  refine ⟨?_, ?_, ?_⟩
  · have hlowered := lowered_normalizeEmail words username
    rw [htrim] at hlowered
    have hlist := lowered_ascii hlowered fun c hc => ascii_of_usernameChar (hchars c hc)
    have hsame : username.toList.map Char.toLower = username.toList :=
      (List.map_congr_left fun c hc => (usernameChar_spec (hchars c hc)).2.1).trans (List.map_id _)
    exact String.toList_inj.1 (hlist.trans hsame)
  · have hones : username.toList.map Char.utf8Size = username.toList.map fun _ => 1 :=
      List.map_congr_left fun c hc => (usernameChar_spec (hchars c hc)).2.2.2.2
    rw [utf8ByteSize_eq_sum, hones, List.map_const', List.sum_replicate, smul_eq_mul, mul_one,
      String.length_toList]
  · rw [Bool.eq_false_iff]
    intro hvalid
    obtain ⟨-, localPart, domain, haddr, -⟩ := (isValidEmail_iff_isAddress username).1 hvalid
    rw [htrim] at haddr
    have hat : '@' ∈ username.toList := by
      rw [toList_eq_of_splitOn haddr.split]
      simp
    exact (usernameChar_spec (hchars '@' hat)).2.2.2.1 rfl

/-- **Normalization keeps login names apart**: two usernames have different normal forms, and the
normal form of an address is no username. -/
theorem login_names_apart (words : WordProperties) {username : String}
    (h : isValidUsername username = true) :
    (∀ username', isValidUsername username' = true →
      normalizeEmail words username' = normalizeEmail words username → username' = username) ∧
    ∀ email, isValidEmail email = true →
      email ≠ username ∧ normalizeEmail words email ≠ username := by
  obtain ⟨hsame, -, hno⟩ := username_stable words h
  refine ⟨fun username' h' heq => ?_, fun email hvalid => ⟨?_, ?_⟩⟩
  · obtain ⟨hsame', -, -⟩ := username_stable words h'
    rw [hsame', hsame] at heq
    exact heq
  · rintro rfl
    rw [hvalid] at hno
    cases hno
  · intro heq
    obtain ⟨-, localPart, domain, haddr, -⟩ := (isValidEmail_iff_isAddress email).1 hvalid
    -- the `@` of the address is there after normalization
    obtain ⟨l, d, hsplit, -, -⟩ :=
      split_of_lowered (lowered_normalizeEmail words email) haddr.split
    obtain ⟨-, hchars, -⟩ := (isValidUsername_iff username).1 h
    have hat : '@' ∈ username.toList := by
      rw [← heq, toList_eq_of_splitOn hsplit]
      simp
    exact (usernameChar_spec (hchars '@' hat)).2.2.2.1 rfl

theorem login_names_apart_zhang :
    normalizeEmail ⟨Char.isAlpha, fun _ => false⟩ "Zhang.San@club.cn" ≠ "zhang.san" :=
  ((login_names_apart ⟨Char.isAlpha, fun _ => false⟩ (by decide)).2 "Zhang.San@club.cn"
    (by decide)).2

end Validate

end OaLibs
