import SpineCodex.Lib.Text

/-!
# Reading the text of an internet address

The reader of the standard library. An IPv4 address is four decimal numbers without leading zeros.
An IPv6 address is eight groups of at most four hexadecimal digits, where one run of zero groups may
be written `::` and the last two groups may be written as an IPv4 address. An IPv4 address therefore
has exactly one text, while an IPv6 address has many.
-/

namespace SpineCodex

/-- An internet address. -/
inductive IpAddr where
  | v4 (octets : Fin 4 → UInt8)
  | v6 (segments : Fin 8 → UInt16)
deriving DecidableEq

namespace IpAddr

/-! ## The reader -/

/-- The value of a digit in a radix of at most 36. -/
def digit (radix : ℕ) (c : Char) : Option ℕ :=
  let n := c.toNat
  let value :=
    if 48 ≤ n ∧ n ≤ 57 then n - 48
    else if 97 ≤ n ∧ n ≤ 122 then n - 87
    else if 65 ≤ n ∧ n ≤ 90 then n - 55
    else radix
  if value < radix then some value else none

def isDigit (radix : ℕ) (c : Char) : Bool := (digit radix c).isSome

/-- The number that a run of digits denotes. -/
def value (radix : ℕ) (digits : List Char) : ℕ :=
  digits.foldl (fun n c => n * radix + (digit radix c).getD 0) 0

/-- A number of at most `maxDigits` digits below `limit`. -/
def readNumber (radix maxDigits limit : ℕ) (allowZeroPrefix : Bool) (s : List Char) :
    Option (ℕ × List Char) :=
  let digits := s.takeWhile (isDigit radix)
  if digits.length = 0 ∨ maxDigits < digits.length ∨
      (allowZeroPrefix = false ∧ digits.head? = some '0' ∧ 1 < digits.length) ∨
      limit ≤ value radix digits then none
  else some (value radix digits, s.dropWhile (isDigit radix))

def readGivenChar (c : Char) : List Char → Option (List Char)
  | [] => none
  | d :: s => if d = c then some s else none

/-- Every item but the first follows a separator. -/
def readSeparated {α : Type} (separator : Char) (first : Bool)
    (inner : List Char → Option (α × List Char)) (s : List Char) : Option (α × List Char) :=
  if first then inner s else (readGivenChar separator s).bind inner

def readOctets : ℕ → Bool → List Char → Option (List UInt8 × List Char)
  | 0, _, s => some ([], s)
  | n + 1, first, s =>
    match readSeparated '.' first (readNumber 10 3 256 false) s with
    | none => none
    | some (octet, s) =>
      match readOctets n false s with
      | none => none
      | some (octets, s) => some (UInt8.ofNat octet :: octets, s)

def readIpv4 (s : List Char) : Option (List UInt8 × List Char) := readOctets 4 true s

/-- The two groups that an embedded IPv4 address stands for. -/
def embedded (octets : List UInt8) : List UInt16 :=
  let pair i := (octets.getD i 0).toUInt16 * 256 + (octets.getD (i + 1) 0).toUInt16
  [pair 0, pair 2]

/-- Groups into the given number of slots: the groups read, whether the last two came from an IPv4
address, and the text that is left. -/
def readGroups : ℕ → Bool → List Char → List UInt16 × Bool × List Char
  | 0, _, s => ([], false, s)
  | n + 1, first, s =>
    match if 0 < n then readSeparated ':' first readIpv4 s else none with
    | some (octets, s) => (embedded octets, true, s)
    | none =>
      match readSeparated ':' first (readNumber 16 4 65536 true) s with
      | none => ([], false, s)
      | some (group, s) =>
        let (groups, ipv4, s) := readGroups n false s
        (UInt16.ofNat group :: groups, ipv4, s)

def readIpv6 (s : List Char) : Option (List UInt16 × List Char) :=
  let (head, ipv4, s) := readGroups 8 true s
  if head.length = 8 then some (head, s)
  -- an IPv4 part is not allowed before the double colon
  else if ipv4 then none
  else match (readGivenChar ':' s).bind (readGivenChar ':') with
    | some s =>
      let (tail, _, s) := readGroups (7 - head.length) true s
      some (head ++ List.replicate (8 - head.length - tail.length) 0 ++ tail, s)
    | none => none

/-- The address that the whole text denotes. -/
def parse (s : List Char) : Option IpAddr :=
  match readIpv4 s with
  | some (octets, []) => some (.v4 fun i => octets.getD i 0)
  | some _ => none
  | none =>
    match readIpv6 s with
    | some (segments, []) => some (.v6 fun i => segments.getD i 0)
    | _ => none

/-- Whether the whole text is an IPv6 address. -/
def isIpv6 (s : List Char) : Bool :=
  match readIpv6 s with
  | some (_, []) => true
  | _ => false

example : parse "::ffff:1.2.3.4".toList = parse "0:0:0:0:0:FFFF:102:304".toList := by decide +kernel

example : parse "1.2.3.04".toList = none := by decide +kernel

/-! ## What the reader consumes -/

/-- The characters an address is written with. -/
def Letter (c : Char) : Prop := isDigit 16 c = true ∨ c = '.' ∨ c = ':'

/-- A run of characters taken by a reader: letters of addresses, the last of which is no dot. -/
structure Taken (used : List Char) : Prop where
  letters : ∀ c ∈ used, Letter c
  last : used.getLast? ≠ some '.'

theorem Taken.nil : Taken [] := ⟨nofun, nofun⟩

theorem Taken.append {first second : List Char} (hf : Taken first) (hs : Taken second) :
    Taken (first ++ second) := by
  constructor
  · intro c hc
    rcases List.mem_append.mp hc with hc | hc
    · exact hf.letters c hc
    · exact hs.letters c hc
  · rw [List.getLast?_append]
    cases h : second.getLast? with
    | none => simpa using hf.last
    | some c => simpa [h] using hs.last

theorem Taken.cons {c : Char} {used : List Char} (hc : Letter c) (h : Taken used)
    (hne : used ≠ []) : Taken (c :: used) := by
  constructor
  · intro d hd
    rcases List.mem_cons.mp hd with rfl | hd
    · exact hc
    · exact h.letters d hd
  · obtain ⟨d, hd⟩ := Option.ne_none_iff_exists'.mp (mt List.getLast?_eq_none_iff.mp hne)
    rw [List.getLast?_cons, hd]
    simpa [hd] using h.last

theorem isDigit_mono {c : Char} (h : isDigit 10 c = true) : isDigit 16 c = true := by
  unfold isDigit digit at *
  grind

theorem isDigit_dot : isDigit 16 '.' = false := by decide

theorem isDigit_colon : isDigit 16 ':' = false := by decide

theorem Taken.digits {used : List Char} (h : ∀ c ∈ used, isDigit 16 c = true) : Taken used := by
  refine ⟨fun c hc => .inl (h c hc), fun hl => ?_⟩
  have := h '.' (List.mem_of_getLast? hl)
  rw [isDigit_dot] at this
  cases this

theorem count_colon_digits {used : List Char} (h : ∀ c ∈ used, isDigit 16 c = true) :
    used.count ':' = 0 := by
  rw [List.count_eq_zero]
  intro hc
  have := h _ hc
  rw [isDigit_colon] at this
  cases this

/-- What a number looks like in the text it was read from. -/
structure Numeral (radix : ℕ) (allowZeroPrefix : Bool) (limit : ℕ) (digits : List Char) (n : ℕ) :
    Prop where
  nonempty : digits ≠ []
  all : ∀ c ∈ digits, isDigit radix c = true
  canonical : allowZeroPrefix = false → digits.head? = some '0' → digits.length = 1
  denotes : value radix digits = n
  small : n < limit

theorem readNumber_eq_some {radix maxDigits limit : ℕ} {allowZeroPrefix : Bool} {s rest : List Char}
    {n : ℕ} (h : readNumber radix maxDigits limit allowZeroPrefix s = some (n, rest)) :
    ∃ digits, s = digits ++ rest ∧ Numeral radix allowZeroPrefix limit digits n := by
  simp only [readNumber] at h
  split at h
  · cases h
  · rename_i hok
    simp only [not_or, not_and, not_lt, not_le] at hok
    obtain ⟨hne, -, hzero, hlimit⟩ := hok
    simp only [Option.some.injEq, Prod.mk.injEq] at h
    obtain ⟨rfl, rfl⟩ := h
    refine ⟨s.takeWhile (isDigit radix), List.takeWhile_append_dropWhile.symm, ?_⟩
    refine ⟨by simpa using hne, fun c hc => (List.mem_takeWhile_imp hc), ?_, rfl, hlimit⟩
    intro hallow hhead
    have := hzero hallow hhead
    omega

theorem readGivenChar_eq_some {c : Char} {s rest : List Char}
    (h : readGivenChar c s = some rest) : s = c :: rest := by
  cases s with
  | nil => cases h
  | cons d s =>
    simp only [readGivenChar] at h
    split_ifs at h with hd
    rw [hd, Option.some.inj h]

theorem readSeparated_eq_some {α : Type} {separator : Char} {first : Bool}
    {inner : List Char → Option (α × List Char)} {s rest : List Char} {a : α}
    (h : readSeparated separator first inner s = some (a, rest)) :
    ∃ s', s = (if first then [] else [separator]) ++ s' ∧ inner s' = some (a, rest) := by
  unfold readSeparated at h
  split_ifs at h with hf
  · exact ⟨s, by simp [hf], h⟩
  · obtain ⟨s', hs, hinner⟩ := Option.bind_eq_some_iff.mp h
    exact ⟨s', by simp [hf, readGivenChar_eq_some hs], hinner⟩

/-- One round of the octet reader. -/
theorem readOctets_succ_eq_some {n : ℕ} {first : Bool} {s rest : List Char} {octets : List UInt8}
    (h : readOctets (n + 1) first s = some (octets, rest)) :
    ∃ octet digits more s', octets = UInt8.ofNat octet :: more ∧
      s = (if first then [] else ['.']) ++ (digits ++ s') ∧ Numeral 10 false 256 digits octet ∧
      readOctets n false s' = some (more, rest) := by
  simp only [readOctets] at h
  split at h
  · cases h
  · rename_i octet s₁ hfirst
    split at h
    · cases h
    · rename_i more s₂ hmore
      simp only [Option.some.injEq, Prod.mk.injEq] at h
      obtain ⟨rfl, rfl⟩ := h
      obtain ⟨s', rfl, hnumber⟩ := readSeparated_eq_some hfirst
      obtain ⟨digits, rfl, hdigits⟩ := readNumber_eq_some hnumber
      exact ⟨octet, digits, more, s₁, rfl, rfl, hdigits, hmore⟩

theorem readOctets_eq_some {n : ℕ} {first : Bool} {s rest : List Char} {octets : List UInt8}
    (h : readOctets n first s = some (octets, rest)) :
    octets.length = n ∧ ∃ used, s = used ++ rest ∧ Taken used ∧ used.count ':' = 0 ∧
      (n ≠ 0 → used ≠ []) := by
  induction n generalizing first s octets with
  | zero =>
    simp only [readOctets, Option.some.injEq, Prod.mk.injEq] at h
    obtain ⟨rfl, rfl⟩ := h
    exact ⟨rfl, [], rfl, .nil, rfl, by simp⟩
  | succ n ih =>
    obtain ⟨octet, digits, more, s', rfl, rfl, hdigits, hmore⟩ := readOctets_succ_eq_some h
    obtain ⟨hlen, used, rfl, htaken, hcolons, -⟩ := ih hmore
    have hhex : ∀ c ∈ digits, isDigit 16 c = true := fun c hc => isDigit_mono (hdigits.all c hc)
    have hread : Taken (digits ++ used) := (Taken.digits hhex).append htaken
    refine ⟨by simp [hlen], (if first then [] else ['.']) ++ (digits ++ used), by simp, ?_, ?_, ?_⟩
    · cases first with
      | true => exact hread
      | false => exact Taken.cons (.inr (.inl rfl)) hread (by simp [hdigits.nonempty])
    · cases first <;> simp [count_colon_digits hhex, hcolons]
    · simp [hdigits.nonempty]

theorem embedded_length (octets : List UInt8) : (embedded octets).length = 2 := rfl

theorem readGroups_eq {n : ℕ} {first : Bool} {s rest : List Char} {groups : List UInt16}
    {ipv4 : Bool} (h : readGroups n first s = (groups, ipv4, rest)) :
    ∃ used, s = used ++ rest ∧ Taken used ∧
      groups.length ≤ used.count ':' + (if first then 1 else 0) + (if ipv4 then 1 else 0) := by
  induction n generalizing first s groups with
  | zero =>
    simp only [readGroups, Prod.mk.injEq] at h
    obtain ⟨rfl, rfl, rfl⟩ := h
    exact ⟨[], rfl, .nil, by simp⟩
  | succ n ih =>
    simp only [readGroups] at h
    split at h
    · rename_i octets s₁ hipv4
      split_ifs at hipv4
      obtain ⟨s', rfl, hread⟩ := readSeparated_eq_some hipv4
      obtain ⟨-, used, rfl, htaken, hcolons, hne⟩ := readOctets_eq_some hread
      simp only [Prod.mk.injEq] at h
      obtain ⟨rfl, rfl, rfl⟩ := h
      refine ⟨(if first then [] else [':']) ++ used, by simp, ?_, ?_⟩
      · cases first with
        | true => exact htaken
        | false => exact Taken.cons (.inr (.inr rfl)) htaken (hne (by simp))
      · cases first <;> simp [embedded_length, hcolons]
    · split at h
      · simp only [Prod.mk.injEq] at h
        obtain ⟨rfl, rfl, rfl⟩ := h
        exact ⟨[], rfl, .nil, by simp⟩
      · rename_i group s₁ hgroup
        obtain ⟨s', rfl, hnumber⟩ := readSeparated_eq_some hgroup
        obtain ⟨digits, rfl, hdigits⟩ := readNumber_eq_some hnumber
        rcases hmore : readGroups n false s₁ with ⟨more, ipv4', rest'⟩
        rw [hmore] at h
        simp only [Prod.mk.injEq] at h
        obtain ⟨rfl, rfl, rfl⟩ := h
        obtain ⟨used, rfl, htaken, hcount⟩ := ih hmore
        have hread : Taken (digits ++ used) := (Taken.digits hdigits.all).append htaken
        refine ⟨(if first then [] else [':']) ++ (digits ++ used), by simp, ?_, ?_⟩
        · cases first with
          | true => exact hread
          | false => exact Taken.cons (.inr (.inr rfl)) hread (by simp [hdigits.nonempty])
        · have := count_colon_digits hdigits.all
          cases first <;> simp at hcount ⊢ <;> omega

theorem readIpv6_eq_some {s rest : List Char} {segments : List UInt16}
    (h : readIpv6 s = some (segments, rest)) :
    ∃ used, s = used ++ rest ∧ Taken used ∧ 2 ≤ used.count ':' := by
  simp only [readIpv6] at h
  rcases hhead : readGroups 8 true s with ⟨head, ipv4, s₁⟩
  rw [hhead] at h
  obtain ⟨used, rfl, htaken, hcount⟩ := readGroups_eq hhead
  dsimp only at h
  split_ifs at h with height hipv4
  · -- all eight groups are written out
    simp only [Option.some.injEq, Prod.mk.injEq] at h
    obtain ⟨-, rfl⟩ := h
    refine ⟨used, rfl, htaken, ?_⟩
    split_ifs at hcount <;> omega
  · split at h
    · rename_i s₂ hdouble
      obtain ⟨s', hfirst, hsecond⟩ := Option.bind_eq_some_iff.mp hdouble
      obtain rfl := readGivenChar_eq_some hfirst
      obtain rfl := readGivenChar_eq_some hsecond
      rcases htail : readGroups (7 - head.length) true s₂ with ⟨tail, ipv4', s₃⟩
      rw [htail] at h
      simp only [Option.some.injEq, Prod.mk.injEq] at h
      obtain ⟨-, rfl⟩ := h
      obtain ⟨more, rfl, hmore, -⟩ := readGroups_eq htail
      have hcolons : Taken [':', ':'] := ⟨by simp [Letter], by simp⟩
      refine ⟨used ++ ([':', ':'] ++ more), by simp, htaken.append (hcolons.append hmore), ?_⟩
      simp only [List.count_append]
      have : List.count ':' [':', ':'] = 2 := rfl
      omega
    · cases h

/-- The text of an address: letters of addresses, not ending in a dot, and with no colon or at least
two. -/
theorem parse_eq_some {s : List Char} {ip : IpAddr} (h : parse s = some ip) :
    s ≠ [] ∧ Taken s ∧ s.count ':' ≠ 1 := by
  simp only [parse] at h
  split at h
  · rename_i hread
    obtain ⟨-, used, rfl, htaken, hcount, hne⟩ := readOctets_eq_some hread
    rw [List.append_nil]
    exact ⟨hne (by simp), htaken, by omega⟩
  · cases h
  · split at h
    · rename_i hread
      obtain ⟨used, rfl, htaken, hcount⟩ := readIpv6_eq_some hread
      rw [List.append_nil]
      refine ⟨?_, htaken, by omega⟩
      rintro rfl
      simp at hcount
    · cases h

theorem parse_v4_eq_some {s : List Char} {octets : Fin 4 → UInt8}
    (h : parse s = some (.v4 octets)) :
    ∃ list, readOctets 4 true s = some (list, []) ∧ octets = fun i : Fin 4 => list.getD i 0 := by
  simp only [parse] at h
  split at h
  · rename_i list hread
    simp only [Option.some.injEq, IpAddr.v4.injEq] at h
    exact ⟨list, hread, h.symm⟩
  · cases h
  · split at h <;> cases h

/-! ## One text for each IPv4 address -/

theorem digit_ten_inj {c d : Char} (hc : isDigit 10 c = true) (hd : isDigit 10 d = true)
    (h : (digit 10 c).getD 0 = (digit 10 d).getD 0) : c = d := by
  have hval : ∀ e : Char, isDigit 10 e = true → 48 ≤ e.toNat ∧ (digit 10 e).getD 0 = e.toNat - 48 := by
    intro e he
    unfold isDigit at he
    unfold digit at he ⊢
    grind
  have h₁ := hval c hc
  have h₂ := hval d hd
  apply Char.ext
  apply UInt32.toNat_inj.mp
  change c.toNat = d.toNat
  omega

theorem digit_lt {radix : ℕ} {c : Char} (h : isDigit radix c = true) :
    (digit radix c).getD 0 < radix := by
  unfold isDigit at h
  unfold digit at h ⊢
  grind

theorem value_eq_ofDigits (radix : ℕ) (digits : List Char) :
    value radix digits = Nat.ofDigits radix (digits.map fun c => (digit radix c).getD 0).reverse := by
  rw [value]
  induction digits using List.reverseRecOn with
  | nil => rfl
  | append_singleton digits c ih =>
    simp only [List.foldl_append, List.foldl_cons, List.foldl_nil, List.map_append, List.map_cons,
      List.map_nil, List.reverse_append, List.reverse_cons, List.reverse_nil, List.nil_append,
      List.cons_append, Nat.ofDigits_cons, ih]
    ring

/-- The digits of a number written without leading zeros. -/
theorem Numeral.digits_eq {limit n : ℕ} {digits : List Char}
    (h : Numeral 10 false limit digits n) :
    (digits.map fun c => (digit 10 c).getD 0).reverse = if n = 0 then [0] else Nat.digits 10 n := by
  obtain ⟨c, digits, rfl⟩ := List.exists_cons_of_ne_nil h.nonempty
  have hlt : ∀ d ∈ ((c :: digits).map fun c => (digit 10 c).getD 0).reverse, d < 10 := by
    intro d hd
    simp only [List.mem_reverse, List.mem_map] at hd
    obtain ⟨e, he, rfl⟩ := hd
    exact digit_lt (h.all e he)
  have hvalue := value_eq_ofDigits 10 (c :: digits)
  rw [h.denotes] at hvalue
  by_cases hc : (digit 10 c).getD 0 = 0
  · have hzero : c = '0' := digit_ten_inj (h.all c (by simp)) (by decide) (by rw [hc]; decide)
    subst hzero
    have hnil : digits = [] := by simpa using h.canonical rfl rfl
    subst hnil
    have hn : n = 0 := by
      rw [hvalue]
      decide
    simp [hn, hc]
  · have hdigits : Nat.digits 10 n = ((c :: digits).map fun c => (digit 10 c).getD 0).reverse := by
      rw [hvalue]
      refine Nat.digits_ofDigits 10 (by norm_num) _ hlt ?_
      intro hne
      simpa using hc
    have hn : n ≠ 0 := by
      rintro rfl
      simp at hdigits
    rw [if_neg hn, hdigits]

theorem Numeral.unique {limit n : ℕ} {digits digits' : List Char}
    (h : Numeral 10 false limit digits n) (h' : Numeral 10 false limit digits' n) :
    digits = digits' := by
  have hmap : digits.map (fun c => (digit 10 c).getD 0) =
      digits'.map fun c => (digit 10 c).getD 0 := by
    apply List.reverse_injective
    rw [h.digits_eq, h'.digits_eq]
  have hlen : digits.length = digits'.length := by simpa using congrArg List.length hmap
  apply List.ext_getElem hlen
  intro i hi hi'
  apply digit_ten_inj (h.all _ (List.getElem_mem hi)) (h'.all _ (List.getElem_mem hi'))
  have := congrArg (fun l => l[i]?) hmap
  simpa [hi, hi'] using this

theorem readOctets_unique {n : ℕ} {first : Bool} {s s' rest rest' : List Char} {octets : List UInt8}
    (h : readOctets n first s = some (octets, rest))
    (h' : readOctets n first s' = some (octets, rest')) :
    ∃ used, s = used ++ rest ∧ s' = used ++ rest' := by
  induction n generalizing first s s' octets with
  | zero =>
    simp only [readOctets, Option.some.injEq, Prod.mk.injEq] at h h'
    exact ⟨[], h.2, h'.2⟩
  | succ n ih =>
    obtain ⟨octet, digits, more, s₁, rfl, rfl, hdigits, hmore⟩ := readOctets_succ_eq_some h
    obtain ⟨octet', digits', more', s₁', heq, rfl, hdigits', hmore'⟩ := readOctets_succ_eq_some h'
    rw [List.cons.injEq] at heq
    obtain ⟨hoctet, rfl⟩ := heq
    have hsame : octet = octet' := by
      have hnat := congrArg UInt8.toNat hoctet
      rw [UInt8.toNat_ofNat_of_lt' hdigits.small, UInt8.toNat_ofNat_of_lt' hdigits'.small] at hnat
      exact hnat
    subst hsame
    obtain rfl : digits = digits' := hdigits.unique hdigits'
    obtain ⟨used, rfl, rfl⟩ := ih hmore hmore'
    exact ⟨(if first then [] else ['.']) ++ (digits ++ used), by simp, by simp⟩

/-- An IPv4 address has one text. -/
theorem parse_v4_unique {s s' : List Char} {octets : Fin 4 → UInt8}
    (h : parse s = some (.v4 octets)) (h' : parse s' = some (.v4 octets)) : s = s' := by
  obtain ⟨list, hread, rfl⟩ := parse_v4_eq_some h
  obtain ⟨list', hread', heq⟩ := parse_v4_eq_some h'
  have hlen := (readOctets_eq_some hread).1
  have hlen' := (readOctets_eq_some hread').1
  have hlist : list = list' := by
    apply List.ext_getElem (hlen.trans hlen'.symm)
    intro i hi hi'
    have := congrFun heq ⟨i, hlen ▸ hi⟩
    simpa [hi, hi'] using this
  subst hlist
  obtain ⟨used, rfl, rfl⟩ := readOctets_unique hread hread'
  rfl

/-! ## Case does not matter -/

theorem digit_toLower (radix : ℕ) (c : Char) : digit radix c.toLower = digit radix c := by
  simp only [digit, toNat_toLower]
  grind

theorem isDigit_comp_toLower (radix : ℕ) : isDigit radix ∘ Char.toLower = isDigit radix := by
  funext c
  simp [isDigit, digit_toLower]

theorem value_lower (radix : ℕ) (digits : List Char) :
    value radix (lower digits) = value radix digits := by
  simp [value, lower, List.foldl_map, digit_toLower]

/-- A reader's result with the text that is left lowered. -/
def lowered {α : Type} : Option (α × List Char) → Option (α × List Char) :=
  Option.map (Prod.map id lower)

theorem readNumber_lower (radix maxDigits limit : ℕ) (allowZeroPrefix : Bool) (s : List Char) :
    readNumber radix maxDigits limit allowZeroPrefix (lower s) =
      lowered (readNumber radix maxDigits limit allowZeroPrefix s) := by
  have htake : (lower s).takeWhile (isDigit radix) = lower (s.takeWhile (isDigit radix)) := by
    rw [lower, List.takeWhile_map, isDigit_comp_toLower, lower]
  have hdrop : (lower s).dropWhile (isDigit radix) = lower (s.dropWhile (isDigit radix)) := by
    rw [lower, List.dropWhile_map, isDigit_comp_toLower, lower]
  have hhead : ∀ l : List Char, (lower l).head? = some '0' ↔ l.head? = some '0' := by
    intro l
    cases l with
    | nil => simp [lower]
    | cons c l => simp [lower, toLower_eq_iff]
  have hlen : ∀ l : List Char, (lower l).length = l.length := fun l => List.length_map _
  simp only [readNumber, htake, hdrop, hhead, hlen, value_lower, lowered]
  split_ifs <;> rfl

theorem readGivenChar_lower {c : Char} (hc : c.toNat < 65) (s : List Char) :
    readGivenChar c (lower s) = (readGivenChar c s).map lower := by
  cases s with
  | nil => rfl
  | cons d s =>
    simp only [readGivenChar, lower, List.map_cons, toLower_eq_iff (.inl hc)]
    split_ifs <;> rfl

theorem readSeparated_lower {α : Type} {separator : Char} {first : Bool}
    {inner : List Char → Option (α × List Char)}
    (hsep : separator.toNat < 65) (hinner : ∀ s, inner (lower s) = lowered (inner s))
    (s : List Char) :
    readSeparated separator first inner (lower s) = lowered (readSeparated separator first inner s) := by
  simp only [readSeparated]
  split_ifs
  · exact hinner s
  · rw [readGivenChar_lower hsep]
    cases readGivenChar separator s with
    | none => rfl
    | some s' => exact hinner s'

theorem readOctets_lower (n : ℕ) (first : Bool) (s : List Char) :
    readOctets n first (lower s) = lowered (readOctets n first s) := by
  induction n generalizing first s with
  | zero => rfl
  | succ n ih =>
    simp only [readOctets]
    rw [readSeparated_lower (by decide) (readNumber_lower 10 3 256 false)]
    cases readSeparated '.' first (readNumber 10 3 256 false) s with
    | none => rfl
    | some read =>
      simp only [lowered, Option.map_some, Prod.map]
      rw [ih]
      cases readOctets n false read.2 <;> rfl

theorem readIpv4_lower (s : List Char) : readIpv4 (lower s) = lowered (readIpv4 s) :=
  readOctets_lower 4 true s

theorem readGroups_lower (n : ℕ) (first : Bool) (s : List Char) :
    readGroups n first (lower s) = Prod.map id (Prod.map id lower) (readGroups n first s) := by
  induction n generalizing first s with
  | zero => rfl
  | succ n ih =>
    simp only [readGroups]
    have hipv4 : (if 0 < n then readSeparated ':' first readIpv4 (lower s) else none) =
        lowered (if 0 < n then readSeparated ':' first readIpv4 s else none) := by
      rw [readSeparated_lower (by decide) readIpv4_lower]
      split_ifs <;> rfl
    rw [hipv4, readSeparated_lower (by decide) (readNumber_lower 16 4 65536 true)]
    cases if 0 < n then readSeparated ':' first readIpv4 s else none with
    | some read => rfl
    | none =>
      cases readSeparated ':' first (readNumber 16 4 65536 true) s with
      | none => rfl
      | some read =>
        simp only [lowered, Option.map_some, Option.map_none, Prod.map]
        rw [ih]
        rfl

theorem readIpv6_lower (s : List Char) : readIpv6 (lower s) = lowered (readIpv6 s) := by
  simp only [readIpv6, readGroups_lower 8 true s]
  rcases readGroups 8 true s with ⟨head, ipv4, rest⟩
  have hdouble : (readGivenChar ':' (lower rest)).bind (readGivenChar ':') =
      ((readGivenChar ':' rest).bind (readGivenChar ':')).map lower := by
    rw [readGivenChar_lower (by decide)]
    cases readGivenChar ':' rest with
    | none => rfl
    | some rest => exact readGivenChar_lower (by decide) rest
  simp only [Prod.map, id, hdouble]
  split_ifs
  · rfl
  · rfl
  · cases (readGivenChar ':' rest).bind (readGivenChar ':') with
    | none => rfl
    | some rest =>
      simp only [Option.map_some, readGroups_lower]
      rfl

theorem parse_lower (s : List Char) : parse (lower s) = parse s := by
  simp only [parse, readIpv4_lower, readIpv6_lower]
  rcases readIpv4 s with _ | ⟨octets, _ | ⟨c, rest⟩⟩
  · rcases readIpv6 s with _ | ⟨segments, _ | ⟨c, rest⟩⟩ <;> rfl
  · rfl
  · rfl

end IpAddr

end SpineCodex
