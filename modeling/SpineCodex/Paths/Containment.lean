import SpineCodex.Lib.Traversal
import SpineCodex.Paths.PathUri

/-!
# Containment of POSIX paths

A POSIX URI without encoded separators has a trail: its decoded segments, the empty ones dropped.
Containment of such URIs is the order of prefixes of their trails, and the depth of a URI is the
length of its trail.
-/

namespace SpineCodex

theorem toOption_eq_some {ε α : Type*} {x : Except ε α} {a : α} (h : x.toOption = some a) : x = .ok a := by
  cases x with
  | error e => cases h
  | ok b =>
    cases h
    rfl

namespace PathUri

/-- The decoded segments of a POSIX URI that is safe for containment. -/
def trail : PathUri → Option (List (List UInt8))
  | fallback _ => none
  | file host segments =>
    if (file host segments).inferPathConvention = some .posix then
      (containmentPathSegments .posix segments).map (·.map decodeBinary)
    else none

variable {path base : PathUri} {t s : List (List UInt8)}

/-- What a URI with a trail looks like. -/
theorem trail_eq_some (h : path.trail = some t) :
    ∃ segments kept, path = file none segments ∧ path.inferPathConvention = some .posix ∧
      containmentPathSegments .posix segments = some kept ∧ kept.map decodeBinary = t := by
  cases path with
  | fallback bytes => cases h
  | file host segments =>
    rw [trail] at h
    split at h
    · rename_i hposix
      obtain ⟨kept, hkept, rfl⟩ := Option.map_eq_some_iff.mp h
      cases host with
      | none => exact ⟨segments, kept, rfl, hposix, hkept, rfl⟩
      | some host => simp [inferPathConvention] at hposix
    · cases h

theorem inferPathConvention_of_trail (h : path.trail = some t) :
    path.inferPathConvention = some .posix := by
  obtain ⟨_, _, _, hposix, _⟩ := trail_eq_some h
  exact hposix

theorem lexicalDepth_of_trail (h : path.trail = some t) : path.lexicalDepth = some t.length := by
  obtain ⟨segments, kept, rfl, hposix, hkept, rfl⟩ := trail_eq_some h
  simp [lexicalDepth, hposix, hkept]

/-- A POSIX URI with a depth has a trail. -/
theorem exists_trail (hposix : path.inferPathConvention = some .posix)
    (hdepth : path.lexicalDepth.isSome = true) : ∃ t, path.trail = some t := by
  cases path with
  | fallback bytes => cases hdepth
  | file host segments =>
    simp only [lexicalDepth, hposix, Option.bind_eq_bind, Option.bind_some] at hdepth
    obtain ⟨kept, hkept⟩ := Option.isSome_iff_exists.mp (Option.isSome_of_isSome_bind hdepth)
    exact ⟨kept.map decodeBinary, by simp [trail, hposix, hkept]⟩

/-- URIs of the POSIX convention are equal only as texts. -/
theorem eq_iff_of_posix (hposix : path.inferPathConvention = some .posix) :
    path.eq base = true ↔ path = base := by
  have hidentity : path.windowsIdentityPathBytes = none := by
    cases path with
    | fallback bytes => rfl
    | file host segments => simp [windowsIdentityPathBytes, hposix]
  simp [eq, hidentity]

theorem inferPathConvention_of_windowsIdentity {bytes : List UInt8}
    (h : path.windowsIdentityPathBytes = some bytes) : path.inferPathConvention = some .windows := by
  cases path with
  | fallback bytes => cases h
  | file host segments =>
    rw [windowsIdentityPathBytes, Option.ite_none_left_eq_some, not_or, not_not] at h
    exact h.1.1

/-- Equal URIs have the same convention. -/
theorem inferPathConvention_of_eq (h : path.eq base = true) :
    path.inferPathConvention = base.inferPathConvention := by
  simp only [eq, Bool.or_eq_true, beq_iff_eq] at h
  rcases h with rfl | h
  · rfl
  · split at h
    · rename_i hpath hbase
      rw [inferPathConvention_of_windowsIdentity hpath, inferPathConvention_of_windowsIdentity hbase]
    · cases h

/-- Segments that are compared by their keys start with others as the lists of keys do. -/
theorem nativePathSegmentsStartWith_iff_of_key {key : List Char → List UInt8}
    {pathSegments baseSegments : List (List Char)} {convention : PathConvention}
    (hkey : ∀ segment ∈ pathSegments, ∀ other ∈ baseSegments,
      sameSegment convention segment other = true ↔ key segment = key other) :
    nativePathSegmentsStartWith pathSegments baseSegments convention = true ↔
      baseSegments.map key <+: pathSegments.map key := by
  induction baseSegments generalizing pathSegments with
  | nil => simp [nativePathSegmentsStartWith]
  | cons segment baseSegments ih =>
    cases pathSegments with
    | nil => simp [nativePathSegmentsStartWith]
    | cons first pathSegments =>
      have hrest := @ih pathSegments fun a ha b hb ↦
        hkey a (List.mem_cons_of_mem _ ha) b (List.mem_cons_of_mem _ hb)
      have hfirst := hkey first List.mem_cons_self segment List.mem_cons_self
      simp only [nativePathSegmentsStartWith, Bool.and_eq_true, decide_eq_true_eq] at hrest ⊢
      simp only [List.length_cons, Nat.add_le_add_iff_right, List.zip_cons_cons, List.all_cons,
        Bool.and_eq_true, hfirst, List.map_cons, List.cons_prefix_cons, ← hrest]
      tauto

theorem nativePathSegmentsStartWith_iff {pathSegments baseSegments : List (List Char)} :
    nativePathSegmentsStartWith pathSegments baseSegments .posix = true ↔
      baseSegments.map decodeBinary <+: pathSegments.map decodeBinary :=
  nativePathSegmentsStartWith_iff_of_key fun _ _ _ _ ↦ beq_iff_eq

/-- Containment is the order of prefixes. -/
theorem startsWith_iff_isPrefix (hpath : path.trail = some t) (hbase : base.trail = some s) :
    path.startsWith base = true ↔ s <+: t := by
  have hequal : path.eq base = true ↔ path = base :=
    eq_iff_of_posix (inferPathConvention_of_trail hpath)
  obtain ⟨segments, kept, rfl, hposix, hkept, rfl⟩ := trail_eq_some hpath
  obtain ⟨segments', kept', rfl, hposix', hkept', rfl⟩ := trail_eq_some hbase
  have hstart : (file none segments).startsWith (file none segments') =
      ((file none segments).eq (file none segments') ||
        nativePathSegmentsStartWith kept kept' .posix) := by
    simp [startsWith, hposix, hposix', hkept, hkept']
  rw [hstart, Bool.or_eq_true, hequal, nativePathSegmentsStartWith_iff]
  constructor
  · rintro (heq | h)
    · cases heq
      rw [hkept] at hkept'
      cases hkept'
      exact List.prefix_refl _
    · exact h
  · exact .inr

/-- What is joined below a URI stays there. -/
theorem startsWith_of_joinDescendant {url : UrlRules} {text : List Char}
    (h : base.joinDescendant url text = .ok path) : path.startsWith base = true := by
  simp only [joinDescendant, except_bind_eq_ok] at h
  obtain ⟨descendant, -, h⟩ := h
  split_ifs at h with hleaves
  cases h
  simp only [Bool.or_eq_true, not_or, Bool.not_eq_true'] at hleaves
  simpa using hleaves.2

/-- What lies below a URI with a trail has a depth. -/
theorem isSome_lexicalDepth_of_startsWith (hbase : base.trail = some s)
    (h : path.startsWith base = true) : path.lexicalDepth.isSome = true := by
  rw [startsWith.eq_def, Bool.or_eq_true] at h
  rcases h with heq | h
  · have hposix := (inferPathConvention_of_eq heq).trans (inferPathConvention_of_trail hbase)
    rw [(eq_iff_of_posix hposix).mp heq, lexicalDepth_of_trail hbase]
    rfl
  · obtain ⟨segments', kept', rfl, hposix', hkept', -⟩ := trail_eq_some hbase
    cases path with
    | fallback bytes => cases h
    | file host segments =>
      dsimp only at h
      split_ifs at h with hdiffer
      rw [not_or, not_not, not_not] at hdiffer
      rw [hdiffer.2, hposix', Option.getD_some, hkept'] at h
      split at h
      · rename_i hkept _
        simp [lexicalDepth, hdiffer.2, hposix', hkept]
      · cases h

/-- Trails of which one is a prefix of the other overlap. -/
theorem overlaps_of_isPrefix (hpath : path.trail = some t) (hbase : base.trail = some s)
    (h : s <+: t ∨ t <+: s) : path.overlaps base = some true := by
  rw [overlaps]
  split_ifs
  · rfl
  · simp only [lexicalDepth_of_trail hpath, lexicalDepth_of_trail hbase, Option.bind_eq_bind,
      Option.bind_some, Option.pure_def, Option.some.injEq, Bool.or_eq_true,
      startsWith_iff_isPrefix hpath hbase, startsWith_iff_isPrefix hbase hpath]
    exact h

/-! ## The root -/

theorem inferPathConvention_of_isPrefix {segments segments' : List (List Char)}
    (h : (file none segments).inferPathConvention = some .posix) (hbefore : segments' <+: segments) :
    (file none segments').inferPathConvention = some .posix := by
  cases hfind : segments'.find? (!·.isEmpty) with
  | none => simp [inferPathConvention, hfind]
  | some segment =>
    -- then it is the first non-empty segment of both
    have hfind' : segments.find? (!·.isEmpty) = some segment := by
      obtain ⟨rest, rfl⟩ := hbefore
      simp [List.find?_append, hfind]
    simp only [inferPathConvention, hfind', hfind] at h ⊢
    exact h

theorem containmentPathSegments_of_isPrefix {convention : PathConvention}
    {segments segments' kept : List (List Char)}
    (h : containmentPathSegments convention segments = some kept) (hbefore : segments' <+: segments) :
    containmentPathSegments convention segments' = some (segments'.filter (!·.isEmpty)) := by
  have hsubset : segments'.filter (!·.isEmpty) ⊆ segments.filter (!·.isEmpty) :=
    (hbefore.sublist.filter _).subset
  rw [containmentPathSegments, Option.ite_none_left_eq_some] at h
  rw [containmentPathSegments, if_neg]
  intro hany
  obtain ⟨segment, hmem, hambiguous⟩ := List.any_eq_true.mp hany
  exact h.1 (List.any_eq_true.mpr ⟨segment, hsubset hmem, hambiguous⟩)

/-- The first segments of a URI with a trail make one again. -/
theorem exists_trail_of_isPrefix {segments segments' : List (List Char)}
    (h : (file none segments).trail = some t) (hbefore : segments' <+: segments) :
    ∃ t', (file none segments').trail = some t' := by
  obtain ⟨_, kept, hfile, hposix, hkept, -⟩ := trail_eq_some h
  cases hfile
  exact ⟨_, by rw [trail, if_pos (inferPathConvention_of_isPrefix hposix hbefore),
    containmentPathSegments_of_isPrefix hkept hbefore, Option.map_some]⟩

theorem depthOf_eq_length {segments : List (List Char)} (h : (file none segments).trail = some t) :
    depthOf segments = t.length := by
  obtain ⟨_, kept, hfile, -, hkept, rfl⟩ := trail_eq_some h
  cases hfile
  simp only [containmentPathSegments, Option.ite_none_left_eq_some, Option.some.injEq] at hkept
  rw [depthOf, hkept.2, List.length_map]

/-- The parent has the first segments, or none is left. -/
theorem popSegment_popIfEmpty (segments : List (List Char)) :
    popSegment (popIfEmpty segments) = [[]] ∨
      (popSegment (popIfEmpty segments) <+: segments ∧
        (popSegment (popIfEmpty segments)).length < segments.length) := by
  have hpop : popIfEmpty segments <+: segments := by
    rw [popIfEmpty]
    split_ifs
    · exact List.dropLast_prefix _
    · exact List.prefix_refl _
  rw [popSegment]
  split_ifs with hlength
  · right
    refine ⟨(List.dropLast_prefix _).trans hpop, ?_⟩
    rw [List.length_dropLast]
    have := hpop.length_le
    omega
  · exact .inl rfl

theorem lastAncestor_trail {n : ℕ} {segments : List (List Char)}
    (h : (file none segments).trail = some t) (hfuel : segments.length ≤ n ∨ depthOf segments = 0) :
    (lastAncestor n (file none segments)).trail = some [] := by
  induction n generalizing segments t with
  | zero =>
    have hdepth : depthOf segments = 0 := by
      rcases hfuel with hfuel | hfuel
      · rw [List.length_eq_zero_iff.mp (Nat.le_zero.mp hfuel)]
        rfl
      · exact hfuel
    rw [depthOf_eq_length h, List.length_eq_zero_iff] at hdepth
    rw [lastAncestor, h, hdepth]
  | succ n ih =>
    have hparent : (file none segments).parent =
        if depthOf segments ≤ 0 then none
        else some (file none (popSegment (popIfEmpty segments))) := by
      rw [parent, inferPathConvention_of_trail h]
      rfl
    rw [lastAncestor, hparent]
    split_ifs with hdepth
    · rw [depthOf_eq_length h, Nat.le_zero, List.length_eq_zero_iff] at hdepth
      rw [h, hdepth]
    · rcases popSegment_popIfEmpty segments with hroot | ⟨hbefore, hlength⟩
      · rw [hroot]
        exact ih (t := []) (by decide +kernel) (.inr rfl)
      · obtain ⟨t', ht'⟩ := exists_trail_of_isPrefix h hbefore
        refine ih ht' (.inl ?_)
        have := hfuel.resolve_right (by omega)
        omega

/-- The root above a URI with a trail. -/
theorem root_trail (h : path.trail = some t) : path.root.trail = some [] := by
  obtain ⟨segments, _, rfl, -⟩ := trail_eq_some h
  exact lastAncestor_trail h (.inl le_rfl)

end PathUri

end SpineCodex
