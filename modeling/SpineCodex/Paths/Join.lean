import SpineCodex.Paths.Native

/-!
# Joining text to a POSIX URI

Joining walks over the components of a relative text and edits the segments of the URL: two dots
remove the last segment as long as the depth, which counts the segments that are not empty, is not
zero.  The decoded components of the result are those of native resolution unless two dots remove
an empty segment, which takes nothing away, or the first segment that is left is spelled like a
drive, so that the result is taken for a Windows path.
-/

namespace SpineCodex

namespace PathUri

/-- What the `url` crate does with a component that is a name: it appends one segment, which
decodes to the name; the only segment of the root makes way for it. -/
structure PushesOne (url : UrlRules) (encode : List Char → List Char) : Prop where
  decodes : ∀ name, decodeBinary (encode name) = asBytes name
  push : ∀ segments name, NormalName (asBytes name) →
    url.push segments name = if segments = [[]] then [encode name] else segments ++ [encode name]

/-- The segments that joining a relative text leaves. -/
def joinedSegments (url : UrlRules) (segments : List (List Char)) (text : List Char) :
    List (List Char) :=
  joinComponents url 0 (PathConvention.posix.pathSegments text) (popIfEmpty segments)
    (depthOf segments)

/-- Two dots only ever remove a segment that is not empty. -/
def ClimbsNames (url : UrlRules) : List (List Char) → List (List Char) → ℕ → Prop
  | [], _, _ => True
  | component :: rest, segments, depth =>
    if component = [] ∨ component = ".".toList then ClimbsNames url rest segments depth
    else if component = "..".toList then
      if 0 < depth then
        segments.getLast? ≠ some [] ∧ ClimbsNames url rest (popSegment segments) (depth - 1)
      else ClimbsNames url rest segments depth
    else ClimbsNames url rest (url.push segments component) (depth + 1)

/-- The components of a text, resolved natively. -/
def resolveComponents (base : AbsolutePathBuf) (components : List (List Char)) : AbsolutePathBuf :=
  (components.map asBytes).foldl AbsolutePathBuf.pushComponent base

variable {url : UrlRules} {encode : List Char → List Char} {segments : List (List Char)}

/-- The segments that count. -/
def named (segments : List (List Char)) : List (List Char) :=
  segments.filter (!·.isEmpty)

theorem named_popIfEmpty (segments : List (List Char)) :
    named (popIfEmpty segments) = named segments := by
  rw [popIfEmpty]
  split_ifs with h
  · obtain ⟨before, rfl⟩ := List.getLast?_eq_some_iff.mp h.2
    simp [named]
  · rfl

theorem named_push (hurl : PushesOne url encode) (segments : List (List Char)) {name : List Char}
    (hname : NormalName (asBytes name)) :
    named (url.push segments name) = named segments ++ [encode name] := by
  have hencoded : encode name ≠ [] := by
    intro hempty
    apply hname.1
    rw [← hurl.decodes, hempty]
    rfl
  have hkept : named [encode name] = [encode name] := by simp [named, hencoded]
  rw [hurl.push segments name hname]
  split_ifs with hroot
  · rw [hkept, hroot]
    rfl
  · rw [named, List.filter_append]
    exact congrArg _ hkept

/-- Removing a segment that is not empty removes the last one that counts. -/
theorem named_popSegment_of_name (h : segments.getLast? ≠ some []) :
    named (popSegment segments) = (named segments).dropLast := by
  cases hlast : segments.getLast? with
  | none =>
    rw [List.getLast?_eq_none_iff.mp hlast]
    rfl
  | some last =>
    obtain ⟨before, rfl⟩ := List.getLast?_eq_some_iff.mp hlast
    have hne : last ≠ [] := fun hempty ↦ h (hempty ▸ hlast)
    have hkept : named (before ++ [last]) = named before ++ [last] := by simp [named, hne]
    rw [hkept, List.dropLast_concat, popSegment]
    split_ifs with hlength
    · rw [List.dropLast_concat]
    · rw [List.length_append, List.length_singleton] at hlength
      rw [List.eq_nil_of_length_eq_zero (by omega : before.length = 0)]
      rfl

/-- Removing an empty segment removes nothing that counts. -/
theorem named_popSegment_of_empty (h : segments.getLast? = some []) :
    named (popSegment segments) = named segments := by
  obtain ⟨before, rfl⟩ := List.getLast?_eq_some_iff.mp h
  have hkept : named (before ++ [[]]) = named before := by simp [named]
  rw [hkept, popSegment]
  split_ifs with hlength
  · rw [List.dropLast_concat]
  · rw [List.length_append, List.length_singleton] at hlength
    rw [List.eq_nil_of_length_eq_zero (by omega : before.length = 0)]
    rfl

theorem length_named_popSegment (segments : List (List Char)) :
    (named segments).length ≤ (named (popSegment segments)).length + 1 := by
  by_cases h : segments.getLast? = some []
  · rw [named_popSegment_of_empty h]
    exact Nat.le_succ _
  · rw [named_popSegment_of_name h, List.length_dropLast]
    omega

/-! ### Components -/

/-- A component is passed over, goes up, or is a name. -/
theorem component_cases {component : List Char} (h : '/' ∉ component) :
    (component = [] ∨ component = ".".toList) ∨
      component = "..".toList ∧ ¬(component = [] ∨ component = ".".toList) ∨
        ¬(component = [] ∨ component = ".".toList) ∧ component ≠ "..".toList ∧
          NormalName (asBytes component) := by
  by_cases hpassed : component = [] ∨ component = ".".toList
  · exact .inl hpassed
  · by_cases hup : component = "..".toList
    · exact .inr (.inl ⟨hup, hpassed⟩)
    · refine .inr (.inr ⟨hpassed, hup, ?_, ?_, ?_, ?_⟩)
      · exact asBytes_ne_nil fun hempty ↦ hpassed (.inl hempty)
      · exact fun hslash ↦ h (mem_asBytes_of_ascii (by decide) hslash)
      · exact fun hdot ↦ hpassed (.inr (asBytes_injective hdot))
      · exact fun hdots ↦ hup (asBytes_injective hdots)

theorem pushComponent_of_passed {component : List Char}
    (h : component = [] ∨ component = ".".toList) (base : AbsolutePathBuf) :
    base.pushComponent (asBytes component) = base := by
  rcases h with rfl | rfl <;> rfl

theorem pushComponent_dots (base : AbsolutePathBuf) :
    base.pushComponent (asBytes "..".toList) = base.pop := rfl

theorem pop_of_nil {base : AbsolutePathBuf} (h : base.names.length = 0) : base.pop = base := by
  cases base with
  | mk names normal =>
    obtain rfl := List.eq_nil_of_length_eq_zero h
    rfl

/-- Joining resolves the components natively, as long as two dots remove names. -/
theorem named_joinComponents (hurl : PushesOne url encode) {components : List (List Char)}
    (hcomponents : ∀ component ∈ components, '/' ∉ component) {base : AbsolutePathBuf}
    (hbase : (named segments).map decodeBinary = base.names)
    (hclimbs : ClimbsNames url components segments base.names.length) :
    (named (joinComponents url 0 components segments base.names.length)).map decodeBinary =
      (resolveComponents base components).names := by
  induction components generalizing segments base with
  | nil => exact hbase
  | cons component components ih =>
    have hrest : ∀ other ∈ components, '/' ∉ other := fun other hother ↦
      hcomponents other (List.mem_cons_of_mem _ hother)
    rw [joinComponents, resolveComponents, List.map_cons, List.foldl_cons]
    rw [ClimbsNames] at hclimbs
    rcases component_cases (hcomponents component List.mem_cons_self) with
      hpassed | ⟨rfl, hpassed⟩ | ⟨hpassed, hup, hname⟩
    · rw [if_pos hpassed] at hclimbs ⊢
      rw [pushComponent_of_passed hpassed]
      exact ih hrest hbase hclimbs
    · rw [if_neg hpassed, if_pos rfl] at hclimbs ⊢
      rw [pushComponent_dots]
      by_cases hdepth : 0 < base.names.length
      · rw [if_pos hdepth] at hclimbs ⊢
        have hpop : base.pop.names.length = base.names.length - 1 := List.length_dropLast
        rw [← hpop] at hclimbs ⊢
        refine ih hrest ?_ hclimbs.2
        rw [named_popSegment_of_name hclimbs.1, List.map_dropLast, hbase]
        rfl
      · rw [if_neg hdepth] at hclimbs ⊢
        rw [pop_of_nil (by omega)]
        exact ih hrest hbase hclimbs
    · rw [if_neg hpassed, if_neg hup] at hclimbs ⊢
      have hpush := @AbsolutePathBuf.names_pushComponent base _ hname
      have hlength : (base.pushComponent (asBytes component)).names.length =
          base.names.length + 1 := by
        rw [hpush, List.length_append, List.length_singleton]
      rw [← hlength] at hclimbs ⊢
      refine ih hrest ?_ hclimbs
      rw [named_push hurl segments hname, List.map_append, hbase, List.map_singleton,
        hurl.decodes, hpush]

/-- Once two dots have removed an empty segment, there is a name too many. -/
theorem length_lt_joinComponents (hurl : PushesOne url encode) {components : List (List Char)}
    (hcomponents : ∀ component ∈ components, '/' ∉ component) {base : AbsolutePathBuf}
    (hbase : base.names.length ≤ (named segments).length)
    (hexcess : base.names.length < (named segments).length ∨
      ¬ClimbsNames url components segments base.names.length) :
    (resolveComponents base components).names.length <
      (named (joinComponents url 0 components segments base.names.length)).length := by
  induction components generalizing segments base with
  | nil => exact hexcess.resolve_right fun h ↦ h trivial
  | cons component components ih =>
    have hrest : ∀ other ∈ components, '/' ∉ other := fun other hother ↦
      hcomponents other (List.mem_cons_of_mem _ hother)
    rw [joinComponents, resolveComponents, List.map_cons, List.foldl_cons]
    rw [ClimbsNames] at hexcess
    rcases component_cases (hcomponents component List.mem_cons_self) with
      hpassed | ⟨rfl, hpassed⟩ | ⟨hpassed, hup, hname⟩
    · rw [if_pos hpassed] at hexcess ⊢
      rw [pushComponent_of_passed hpassed]
      exact ih hrest hbase hexcess
    · rw [if_neg hpassed, if_pos rfl] at hexcess ⊢
      rw [pushComponent_dots]
      by_cases hdepth : 0 < base.names.length
      · have hpop : base.pop.names.length = base.names.length - 1 := List.length_dropLast
        have hremoved := length_named_popSegment segments
        rw [if_pos hdepth, ← hpop] at hexcess ⊢
        refine ih hrest (by omega) ?_
        rcases hexcess with hexcess | hclimbs
        · exact .inl (by omega)
        · by_cases hempty : segments.getLast? = some []
          · rw [named_popSegment_of_empty hempty]
            exact .inl (by omega)
          · exact .inr fun hrestClimbs ↦ hclimbs ⟨hempty, hrestClimbs⟩
      · rw [if_neg hdepth] at hexcess ⊢
        rw [pop_of_nil (by omega)]
        exact ih hrest hbase hexcess
    · rw [if_neg hpassed, if_neg hup] at hexcess ⊢
      have hlength : (base.pushComponent (asBytes component)).names.length =
          base.names.length + 1 := by
        rw [AbsolutePathBuf.names_pushComponent hname, List.length_append, List.length_singleton]
      have hpushed : (named (url.push segments component)).length = (named segments).length + 1 := by
        rw [named_push hurl segments hname, List.length_append, List.length_singleton]
      rw [← hlength] at hexcess ⊢
      refine ih hrest (by omega) (hexcess.imp_left fun hlt ↦ ?_)
      omega

/-! ### The result -/

theorem join_of_relative (hposix : (file none segments).inferPathConvention = some .posix)
    {text : List Char} (hnull : '\x00' ∉ text) (hne : text ≠ []) (hrelative : text.head? ≠ some '/') :
    (file none segments).join url text = tryFrom none (joinedSegments url segments text) := by
  rw [join, if_neg hnull, if_neg hne, hposix]
  dsimp only
  rw [fromAbsoluteNativePath_of_relative url hrelative]
  rfl

/-- Every joined segment is one of the base, an encoded component or empty. -/
theorem mem_joinComponents (hurl : PushesOne url encode) {components : List (List Char)}
    (hcomponents : ∀ component ∈ components, '/' ∉ component) {depth : ℕ} {segment : List Char}
    (h : segment ∈ joinComponents url 0 components segments depth) :
    segment ∈ segments ∨ segment = [] ∨
      ∃ component ∈ components, NormalName (asBytes component) ∧ segment = encode component := by
  induction components generalizing segments depth with
  | nil => exact .inl h
  | cons component components ih =>
    have hrest : ∀ other ∈ components, '/' ∉ other := fun other hother ↦
      hcomponents other (List.mem_cons_of_mem _ hother)
    have hlater {segments' : List (List Char)} {depth' : ℕ}
        (hmem : segment ∈ joinComponents url 0 components segments' depth') :
        segment ∈ segments' ∨ segment = [] ∨ ∃ other ∈ component :: components,
          NormalName (asBytes other) ∧ segment = encode other := by
      rcases ih hrest hmem with hbefore | hempty | ⟨other, hother, hname, hencoded⟩
      · exact .inl hbefore
      · exact .inr (.inl hempty)
      · exact .inr (.inr ⟨other, List.mem_cons_of_mem _ hother, hname, hencoded⟩)
    rw [joinComponents] at h
    rcases component_cases (hcomponents component List.mem_cons_self) with
      hpassed | ⟨rfl, hpassed⟩ | ⟨hpassed, hup, hname⟩
    · rw [if_pos hpassed] at h
      exact hlater h
    · rw [if_neg hpassed, if_pos rfl] at h
      split_ifs at h
      · rcases hlater h with hbefore | hother
        · rw [popSegment] at hbefore
          split_ifs at hbefore
          · exact .inl (List.mem_of_mem_dropLast hbefore)
          · exact .inr (.inl (List.mem_singleton.mp hbefore))
        · exact .inr hother
      · exact hlater h
    · rw [if_neg hpassed, if_neg hup] at h
      rcases hlater h with hbefore | hother
      · have hpushed : segment ∈ segments ∨ segment = encode component := by
          rw [hurl.push segments component hname] at hbefore
          split_ifs at hbefore
          · exact .inr (List.mem_singleton.mp hbefore)
          · rcases List.mem_append.mp hbefore with hold | hnew
            · exact .inl hold
            · exact .inr (List.mem_singleton.mp hnew)
        rcases hpushed with hold | hnew
        · exact .inl hold
        · exact .inr (.inr ⟨component, List.mem_cons_self, hname, hnew⟩)
      · exact .inr hother

/-- The pieces of a text have its characters, without the separators. -/
theorem mem_of_mem_splitOnP {α : Type*} {p : α → Bool} {l piece : List α}
    (h : piece ∈ l.splitOnP p) : ∀ x ∈ piece, x ∈ l ∧ p x = false := by
  induction l generalizing piece with
  | nil =>
    rw [List.splitOnP_nil, List.mem_singleton] at h
    simp [h]
  | cons y l ih =>
    have hlater {piece : List α} (hpiece : piece ∈ l.splitOnP p) :
        ∀ x ∈ piece, x ∈ y :: l ∧ p x = false := fun x hx ↦
      ⟨List.mem_cons_of_mem _ (ih hpiece x hx).1, (ih hpiece x hx).2⟩
    rw [List.splitOnP_cons_eq_if_modifyHead] at h
    split_ifs at h with hy
    · rcases List.mem_cons.mp h with rfl | hpiece
      · simp
      · exact hlater hpiece
    · cases hsplit : l.splitOnP p with
      | nil => simp [hsplit] at h
      | cons first rest =>
        rw [hsplit, List.modifyHead_cons] at h
        rcases List.mem_cons.mp h with rfl | hpiece
        · intro x hx
          rcases List.mem_cons.mp hx with rfl | hx
          · exact ⟨List.mem_cons_self, Bool.eq_false_iff.mpr hy⟩
          · exact hlater (hsplit ▸ List.mem_cons_self) x hx
        · exact hlater (hsplit ▸ List.mem_cons_of_mem _ hpiece)

/-- The trail of a URI, from its segments that count. -/
theorem trail_of_unambiguous (hposix : (file none segments).inferPathConvention = some .posix)
    (hslash : ∀ segment ∈ named segments, (47 : UInt8) ∉ decodeBinary segment) :
    (file none segments).trail = some ((named segments).map decodeBinary) := by
  have hsegments : containmentPathSegments .posix segments = some (named segments) := by
    unfold containmentPathSegments
    dsimp only
    rw [if_neg]
    · rfl
    · intro hany
      obtain ⟨segment, hmem, hambiguous⟩ := List.any_eq_true.mp hany
      refine hslash segment hmem ?_
      simpa using hambiguous
  rw [trail, if_pos hposix, hsegments, Option.map_some]

/-- The segments of a URI with a trail. -/
theorem named_of_trail {names : List (List UInt8)} (h : (file none segments).trail = some names) :
    (named segments).map decodeBinary = names ∧
      ∀ segment ∈ named segments, (47 : UInt8) ∉ decodeBinary segment := by
  obtain ⟨_, kept, hfile, -, hkept, rfl⟩ := trail_eq_some h
  cases hfile
  rw [containmentPathSegments, Option.ite_none_left_eq_some, Option.some.injEq] at hkept
  obtain ⟨hunambiguous, rfl⟩ := hkept
  refine ⟨rfl, fun segment hmem hslash ↦ hunambiguous ?_⟩
  exact List.any_eq_true.mpr ⟨segment, hmem, List.any_eq_true.mpr ⟨47, hslash, rfl⟩⟩

theorem inferPathConvention_iff (segments : List (List Char)) :
    (file none segments).inferPathConvention = some .posix ↔
      (segments.find? (!·.isEmpty)).any isWindowsDriveUriSegment = false := by
  rw [inferPathConvention, ← Bool.not_eq_true]
  split_ifs with hhost hdrive
  · cases hhost
  · exact iff_of_false (by simp) (fun h ↦ h hdrive)
  · exact iff_of_true rfl hdrive

theorem slash_notMem_pathSegments {text component : List Char}
    (hcomponent : component ∈ PathConvention.posix.pathSegments text) : '/' ∉ component := by
  intro hmem
  exact absurd (mem_of_mem_splitOnP hcomponent '/' hmem).2 (by decide)

/-- A segment of the joined path is one of the base, empty, or an encoded name of the text. -/
theorem mem_joinedSegments (hurl : PushesOne url encode) {text segment : List Char}
    (hsegment : segment ∈ joinedSegments url segments text) :
    segment ∈ segments ∨ segment = [] ∨ ∃ component ∈ PathConvention.posix.pathSegments text,
      NormalName (asBytes component) ∧ segment = encode component := by
  refine (mem_joinComponents hurl (fun _ ↦ slash_notMem_pathSegments) hsegment).imp_left ?_
  intro hbefore
  rw [popIfEmpty] at hbefore
  split_ifs at hbefore
  · exact List.mem_of_mem_dropLast hbefore
  · exact hbefore

/-- Where the base and the text have no null byte, the join is accepted. -/
theorem join_eq_normalized (hurl : PushesOne url encode)
    (hposix : (file none segments).inferPathConvention = some .posix)
    (hvalid : ∀ segment ∈ segments, (0 : UInt8) ∉ decodeBinary segment) {text : List Char}
    (hnull : '\x00' ∉ text) (hempty : text ≠ []) (hrelative : text.head? ≠ some '/') :
    (file none segments).join url text =
      .ok (file none (withNormalizedWindowsDriveLetter (joinedSegments url segments text))) := by
  rw [join_of_relative hposix hnull hempty hrelative, tryFrom_none, if_neg]
  intro hany
  obtain ⟨segment, hsegment, hzero⟩ := List.any_eq_true.mp hany
  rw [List.contains_iff_mem] at hzero
  rcases mem_joinedSegments hurl hsegment with hold | rfl | ⟨component, hcomponent, -, rfl⟩
  · exact hvalid segment hold hzero
  · exact absurd hzero List.not_mem_nil
  · rw [hurl.decodes] at hzero
    have hchar : '\x00' ∈ component := mem_asBytes_of_ascii (by decide) hzero
    exact hnull (mem_of_mem_splitOnP hcomponent _ hchar).1

/-- The trail of a joined path that is read as POSIX is the decoded names of its segments. -/
theorem trail_joinedSegments (hurl : PushesOne url encode) {text : List Char}
    (hslash : ∀ segment ∈ named segments, (47 : UInt8) ∉ decodeBinary segment)
    (hposix : (file none (joinedSegments url segments text)).inferPathConvention = some .posix) :
    (file none (withNormalizedWindowsDriveLetter (joinedSegments url segments text))).trail =
      some ((named (joinedSegments url segments text)).map decodeBinary) := by
  rw [withNormalizedWindowsDriveLetter_of_posix hposix]
  refine trail_of_unambiguous hposix fun segment hsegment ↦ ?_
  obtain ⟨hjoined, hnonempty⟩ := List.mem_filter.mp hsegment
  rcases mem_joinedSegments hurl hjoined with hold | rfl | ⟨component, -, hname, rfl⟩
  · exact hslash segment (List.mem_filter.mpr ⟨hold, hnonempty⟩)
  · cases hnonempty
  · rw [hurl.decodes]
    exact hname.2.1

/-- Only a percent sign is escaped. -/
def escapePercent (name : List Char) : List Char :=
  name.flatMap fun c ↦ if c = '%' then "%25".toList else [c]

def escapingUrl : UrlRules where
  push segments name := plainUrl.push segments (escapePercent name)
  setHost := plainUrl.setHost

theorem pushesOne_escapingUrl : PushesOne escapingUrl escapePercent where
  decodes name := by
    induction name with
    | nil => rfl
    | cons c name ih =>
      rw [escapePercent, List.flatMap_cons]
      change decodeBinary (_ ++ escapePercent name) = _
      by_cases hpercent : c = '%'
      · subst hpercent
        change decodeBinary ('%' :: '2' :: '5' :: escapePercent name) = _
        rw [@decodeBinary_escape '2' '5' 2 5 rfl rfl, ih]
        rfl
      · rw [if_neg hpercent, List.singleton_append, decodeBinary, ih, ← asBytes_append]
        · rfl
        · intro high low rest hc
          exact absurd hc hpercent
  push _ _ _ := rfl

end PathUri

end SpineCodex
