import SpineCodex.Paths.Positions

/-!
# Native paths of a POSIX host

An absolute path in normal form is a list of components without separators and dots. A host writes such a
path as a URI, one encoded segment for each component, and keeps its bytes where that URI would be taken
for one of the other convention. Back from a URI come the decoded components. How the `url` crate encodes
a component is a parameter. An ordinary path is the trail of its URI.
-/

namespace SpineCodex

open PathUri (UrlRules plainUrl)

/-! ## Paths in normal form -/

/-- A component that stands for itself. -/
def NormalName (name : List UInt8) : Prop :=
  name ≠ [] ∧ (47 : UInt8) ∉ name ∧ name ≠ [46] ∧ name ≠ [46, 46]

instance (name : List UInt8) : Decidable (NormalName name) := inferInstanceAs (Decidable (_ ∧ _))

/-- An absolute path in normal form. -/
structure AbsolutePathBuf where
  names : List (List UInt8)
  normal : ∀ name ∈ names, NormalName name
deriving DecidableEq

namespace AbsolutePathBuf

/-- The root of the file system. -/
def root : AbsolutePathBuf := ⟨[], fun _ h ↦ absurd h List.not_mem_nil⟩

def pop (path : AbsolutePathBuf) : AbsolutePathBuf :=
  ⟨path.names.dropLast, fun name h ↦ path.normal name (List.mem_of_mem_dropLast h)⟩

/-- One more component of a text; two dots go up and what is no name is passed over. -/
def pushComponent (path : AbsolutePathBuf) (name : List UInt8) : AbsolutePathBuf :=
  if h : NormalName name then
    ⟨path.names ++ [name], fun other hother ↦
      (List.mem_append.mp hother).elim (path.normal other) fun hmem ↦ List.mem_singleton.mp hmem ▸ h⟩
  else if name = [46, 46] then path.pop
  else path

/-- A text resolved against a base. -/
def absolutizeFrom (text : List UInt8) (base : AbsolutePathBuf) : AbsolutePathBuf :=
  (text.splitOnP (· == 47)).foldl pushComponent (if text.head? = some 47 then root else base)

/-- A text resolved against a base, where a leading tilde stands for the home directory. -/
def resolvePathAgainstBase (home : Option AbsolutePathBuf) (text : List Char) (base : AbsolutePathBuf) :
    AbsolutePathBuf :=
  match text, home with
  | ['~'], some home => home
  | '~' :: '/' :: rest, some home => absolutizeFrom (asBytes (rest.dropWhile (· == '/'))) home
  | text, _ => absolutizeFrom (asBytes text) base

def startsWith (path base : AbsolutePathBuf) : Bool := base.names.isPrefixOf path.names

/-- The bytes of the path. -/
def bytes (path : AbsolutePathBuf) : List UInt8 :=
  if path.names = [] then [47] else path.names.flatMap (47 :: ·)

theorem names_pushComponent {path : AbsolutePathBuf} {name : List UInt8} (h : NormalName name) :
    (path.pushComponent name).names = path.names ++ [name] := by
  rw [pushComponent, dif_pos h]

end AbsolutePathBuf

/-! ## The host -/

/-- What a host adds to the rules of the `url` crate: its encoding of a component, the directories of its
environment and the kinds of its files. -/
structure LocalHost extends UrlRules where
  encode : List UInt8 → List Char
  homeDirectory : Option AbsolutePathBuf
  tmpdir : Option AbsolutePathBuf
  isDir : AbsolutePathBuf → Bool
  isFile : AbsolutePathBuf → Bool

namespace LocalHost

variable (host : LocalHost)

/-- The encoded segments of a path; those of the root are a single empty one. -/
def segments (path : AbsolutePathBuf) : List (List Char) :=
  if path.names = [] then [[]] else path.names.map host.encode

def fromAbsPath (path : AbsolutePathBuf) : PathUri :=
  match PathUri.tryFrom none (host.segments path) with
  | .ok uri =>
    if uri.hostOf ≠ some [] ∧ uri.inferPathConvention = some .posix then uri else .fallback path.bytes
  | .error _ => .fallback path.bytes

/-- The path of a URI of the host's convention; kept bytes must be those of the path. -/
def toAbsPath (uri : PathUri) : Option AbsolutePathBuf :=
  if uri.inferPathConvention ≠ some .posix then none
  else match uri with
    | .fallback bytes =>
      let path := AbsolutePathBuf.absolutizeFrom bytes .root
      if (host.fromAbsPath path).eq uri then some path else none
    | .file _ segments =>
      some (AbsolutePathBuf.absolutizeFrom (segments.flatMap fun segment => 47 :: decodeBinary segment) .root)

/-- What the `url` crate says of its encoding. -/
def Decodes : Prop := ∀ name, decodeBinary (host.encode name) = name

end LocalHost

/-! ## Drive letters -/

theorem toNat_toUpper (c : Char) :
    c.toUpper.toNat = if 97 ≤ c.toNat ∧ c.toNat ≤ 122 then c.toNat - 32 else c.toNat := by
  unfold Char.toUpper
  have hrange : ('a'.val ≤ c.val ∧ c.val ≤ 'z'.val) ↔ (97 ≤ c.toNat ∧ c.toNat ≤ 122) := Iff.rfl
  simp only [hrange]
  split_ifs with h
  · have hshift : UInt32.toNat ('A'.val - 'a'.val) = 4294967264 := rfl
    have hval : c.val.toNat = c.toNat := rfl
    simp only [Char.toNat, UInt32.toNat_add]
    omega
  · rfl

theorem isAsciiAlphabetic_toUpper (c : Char) : isAsciiAlphabetic c.toUpper = isAsciiAlphabetic c := by
  rw [Bool.eq_iff_iff]
  simp only [isAsciiAlphabetic, toNat_toUpper, Bool.or_eq_true, Bool.and_eq_true, decide_eq_true_eq]
  split_ifs <;> omega

namespace PathUri

variable {segments : List (List Char)}

theorem isWindowsDriveUriSegment_cons (drive : Char) (more : List Char) :
    isWindowsDriveUriSegment (drive :: more) =
      (isAsciiAlphabetic drive && (more == [':'] || more == ['%', '3', 'A'] || more == ['%', '3', 'a'])) := by
  unfold isWindowsDriveUriSegment
  split
  · rename_i heq
    cases heq
    simp
  · rename_i heq
    cases heq
    simp
  · rename_i hcolon hencoded
    rw [eq_comm, Bool.and_eq_false_iff, Bool.or_eq_false_iff, Bool.or_eq_false_iff]
    simp only [beq_eq_false_iff_ne]
    exact .inr ⟨⟨fun h ↦ hcolon drive (h ▸ rfl), fun h ↦ hencoded drive 'A' (h ▸ rfl)⟩,
      fun h ↦ hencoded drive 'a' (h ▸ rfl)⟩

theorem withNormalizedWindowsDriveLetter_cons (drive : Char) (more : List Char) (rest : List (List Char)) :
    withNormalizedWindowsDriveLetter ((drive :: more) :: rest) =
      if isWindowsDriveUriSegment (drive :: more) then (drive.toUpper :: more) :: rest
      else (drive :: more) :: rest := rfl

theorem tryFrom_none (segments : List (List Char)) :
    tryFrom none segments =
      if segments.any fun segment => (decodeBinary segment).contains 0 then
        .error (.invalidFileUri (file none segments))
      else .ok (file none (withNormalizedWindowsDriveLetter segments)) := rfl

/-- Normalizing the letter of a drive keeps the convention. -/
theorem inferPathConvention_withNormalizedWindowsDriveLetter (segments : List (List Char)) :
    (file none (withNormalizedWindowsDriveLetter segments)).inferPathConvention =
      (file none segments).inferPathConvention := by
  induction segments with
  | nil => rfl
  | cons segment rest ih =>
    cases segment with
    | nil => exact ih
    | cons drive more =>
      rw [withNormalizedWindowsDriveLetter_cons]
      split_ifs
      · simp [inferPathConvention, isWindowsDriveUriSegment_cons, isAsciiAlphabetic_toUpper]
      · rfl

/-- A path of the POSIX convention has no drive letter to normalize. -/
theorem withNormalizedWindowsDriveLetter_of_posix
    (h : (file none segments).inferPathConvention = some .posix) :
    withNormalizedWindowsDriveLetter segments = segments := by
  induction segments with
  | nil => rfl
  | cons segment rest ih =>
    cases segment with
    | nil => exact congrArg _ (ih h)
    | cons drive more =>
      rw [withNormalizedWindowsDriveLetter_cons, if_neg]
      intro hdrive
      simp [inferPathConvention, hdrive] at h

end PathUri

/-! ## Ordinary paths -/

namespace LocalHost

variable {host : LocalHost} {path base : AbsolutePathBuf}

/-- The host writes the path as the URI of its components. -/
def Ordinary (host : LocalHost) (path : AbsolutePathBuf) : Prop :=
  (host.segments path).any (fun segment => (decodeBinary segment).contains 0) = false ∧
    (PathUri.file none (host.segments path)).inferPathConvention = some .posix

instance (host : LocalHost) (path : AbsolutePathBuf) : Decidable (host.Ordinary path) :=
  inferInstanceAs (Decidable (_ ∧ _))

theorem fromAbsPath_eq (host : LocalHost) (path : AbsolutePathBuf) :
    host.fromAbsPath path =
      if host.Ordinary path then .file none (host.segments path) else .fallback path.bytes := by
  have hconvention := PathUri.inferPathConvention_withNormalizedWindowsDriveLetter (host.segments path)
  by_cases hnull : (host.segments path).any (fun segment => (decodeBinary segment).contains 0) = true
  · have hnot : ¬ host.Ordinary path := fun h ↦ Bool.false_ne_true (h.1.symm.trans hnull)
    rw [if_neg hnot, fromAbsPath, PathUri.tryFrom_none, if_pos hnull]
  · rw [fromAbsPath, PathUri.tryFrom_none, if_neg hnull]
    dsimp only
    rw [hconvention]
    by_cases hposix : (PathUri.file none (host.segments path)).inferPathConvention = some .posix
    · have hordinary : host.Ordinary path := ⟨Bool.eq_false_of_not_eq_true hnull, hposix⟩
      rw [if_pos ⟨(nomatch ·), hposix⟩, if_pos hordinary,
        PathUri.withNormalizedWindowsDriveLetter_of_posix hposix]
    · rw [if_neg (fun h ↦ hposix h.2), if_neg (fun h : host.Ordinary path ↦ hposix h.2)]

theorem Ordinary.fromAbsPath (h : host.Ordinary path) :
    host.fromAbsPath path = .file none (host.segments path) := by
  rw [fromAbsPath_eq, if_pos h]

theorem lexicalDepth_of_not_ordinary (h : ¬ host.Ordinary path) :
    (host.fromAbsPath path).lexicalDepth = none := by
  rw [fromAbsPath_eq, if_neg h]
  rfl

/-- The trail of an ordinary path is the path. -/
theorem Ordinary.trail (h : host.Ordinary path) (hdecode : host.Decodes) :
    (host.fromAbsPath path).trail = some path.names := by
  have hkept : PathUri.containmentPathSegments .posix (host.segments path) =
      some (path.names.map host.encode) := by
    have hfilter : (host.segments path).filter (!·.isEmpty) = path.names.map host.encode := by
      rw [segments]
      split_ifs with hroot
      · rw [hroot]
        rfl
      · refine List.filter_eq_self.mpr fun segment hsegment ↦ ?_
        obtain ⟨name, hname, rfl⟩ := List.mem_map.mp hsegment
        rw [Bool.not_eq_true', List.isEmpty_eq_false_iff]
        exact fun hnil ↦ (path.normal name hname).1 (hdecode name ▸ decodeBinary_eq_nil.mpr hnil)
    simp only [PathUri.containmentPathSegments, hfilter]
    rw [if_neg]
    intro hambiguous
    obtain ⟨segment, hsegment, hslash⟩ := List.any_eq_true.mp hambiguous
    obtain ⟨name, hname, rfl⟩ := List.mem_map.mp hsegment
    simp [hdecode name] at hslash
    exact (path.normal name hname).2.1 hslash
  rw [h.fromAbsPath, PathUri.trail, if_pos h.2, hkept, Option.map_some, List.map_map]
  congr 1
  exact (List.map_congr_left fun name _ ↦ hdecode name).trans (List.map_id _)

/-- What is above an ordinary path is ordinary. -/
theorem Ordinary.of_isPrefix (h : host.Ordinary path) (hbefore : base.names <+: path.names) :
    host.Ordinary base := by
  by_cases hroot : base.names = []
  · rw [Ordinary, segments, if_pos hroot]
    decide +kernel
  · have hpath : path.names ≠ [] := fun hnil ↦ hroot (List.prefix_nil.mp (hnil ▸ hbefore))
    have hsegments : host.segments base <+: host.segments path := by
      rw [segments, segments, if_neg hroot, if_neg hpath]
      exact hbefore.map host.encode
    refine ⟨?_, PathUri.inferPathConvention_of_isPrefix h.2 hsegments⟩
    rw [List.any_eq_false]
    intro segment hsegment
    exact List.any_eq_false.mp h.1 segment (hsegments.subset hsegment)

end LocalHost

end SpineCodex
