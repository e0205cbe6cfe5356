import CcSwitchServer.GeminiStream.Grounding

/-! # The sources that citations name

Positions are looked up in all lists seen so far, written one behind the other.
-/

namespace CcSwitchServer.GeminiStream
open Foundations String GroundingCitation

/-! ## The raw map -/

def urlAt (chunks : List Json) (i : ℕ) : Option String := (chunks[i]?.map chunkUrl).filter (· ≠ "")

theorem urlAt_eq_some {chunks : List Json} {i : ℕ} {url : String} : urlAt chunks i = some url ↔
    url ≠ "" ∧ ∃ chunk, chunks[i]? = some chunk ∧ chunkUrl chunk = url := by
  unfold urlAt
  rw [Option.filter_eq_some_iff, Option.map_eq_some_iff, decide_eq_true_eq, and_comm]

namespace GroundingAccumulator

/-- The raw map stands for the chunks seen so far. -/
structure Resolves (g : GroundingAccumulator) (seen : List Json) : Prop where
  length : g.rawChunkMap.length = seen.length
  inside : ∀ j, some j ∈ g.rawChunkMap → j < g.chunks.length
  url : ∀ i, (g.chunkAt i).map GroundingChunk.url = urlAt seen i

section
variable {g g' : GroundingAccumulator} {seen : List Json}

theorem Resolves.congr (h : g.Resolves seen) (hchunks : g'.chunks = g.chunks)
    (hmap : g'.rawChunkMap = g.rawChunkMap) : g'.Resolves seen := by
  refine ⟨hmap ▸ h.length, ?_, fun i => ?_⟩
  · rw [hchunks, hmap]
    exact h.inside
  · rw [← h.url i]
    unfold chunkAt
    rw [hchunks, hmap]

theorem chunkAt_url (g : GroundingAccumulator) (i : ℕ) : (g.chunkAt i).map GroundingChunk.url =
    (g.rawChunkMap[i]?).join.bind fun j => (g.chunks.map GroundingChunk.url)[j]? := by
  unfold chunkAt
  cases (g.rawChunkMap[i]?).join with
  | none => rfl
  | some j =>
    rw [Option.bind_eq_bind, Option.bind_some, Option.bind_some, List.getElem?_map]

theorem urlAt_append_left {seen later : List Json} {i : ℕ} (h : i < seen.length) :
    urlAt (seen ++ later) i = urlAt seen i := by
  unfold urlAt
  rw [List.getElem?_append_left h]

theorem urlAt_of_le {seen : List Json} {i : ℕ} (h : seen.length ≤ i) : urlAt seen i = none := by
  unfold urlAt
  rw [List.getElem?_eq_none h]
  rfl

theorem Resolves.push {entry : Option ℕ} {chunk : Json} {chunks : List GroundingChunk} (h : g.Resolves seen)
    (hmap : g'.rawChunkMap = g.rawChunkMap ++ [entry]) (hchunks : g'.chunks = chunks)
    (hurls : g.chunks.map GroundingChunk.url <+: chunks.map GroundingChunk.url)
    (hentry : ∀ j, entry = some j → j < chunks.length)
    (hurl : entry.bind (fun j => (chunks.map GroundingChunk.url)[j]?) = urlAt [chunk] 0) :
    g'.Resolves (seen ++ [chunk]) := by
  have hlength : g.chunks.length ≤ chunks.length := by
    have hle := hurls.length_le
    rw [List.length_map, List.length_map] at hle
    exact hle
  constructor
  · rw [hmap, List.length_append, List.length_append, h.length]
    rfl
  · intro j hj
    rw [hchunks]
    rw [hmap, List.mem_append, List.mem_singleton] at hj
    obtain hj | hj := hj
    · exact (h.inside j hj).trans_le hlength
    · exact hentry j hj.symm
  · intro i
    rw [chunkAt_url, hmap, hchunks]
    obtain hlt | heq | hgt := lt_trichotomy i seen.length
    · rw [List.getElem?_append_left (h.length.symm ▸ hlt), urlAt_append_left hlt, ← h.url i, chunkAt_url]
      cases hplace : g.rawChunkMap[i]? with
      | none => rfl
      | some entry' =>
        cases entry' with
        | none => rfl
        | some j =>
          have hj := h.inside j (List.mem_of_getElem? hplace)
          obtain ⟨more, hmore⟩ := hurls
          rw [Option.join_some, Option.bind_some, Option.bind_some, ← hmore,
            List.getElem?_append_left (by rw [List.length_map]; exact hj)]
    · subst heq
      rw [← h.length, List.getElem?_concat_length, Option.join_some, hurl, h.length]
      unfold urlAt
      rw [List.getElem?_concat_length]
      rfl
    · rw [List.getElem?_eq_none, urlAt_of_le]
      · rfl
      · rw [List.length_append, List.length_singleton]
        omega
      · rw [List.length_append, List.length_singleton, h.length]
        omega

theorem modify_url (chunks : List GroundingChunk) (index : ℕ) (title : String) :
    (chunks.modify index fun known => retitle known title).map GroundingChunk.url = chunks.map GroundingChunk.url := by
  apply List.ext_getElem?
  intro i
  rw [List.getElem?_map, List.getElem?_map, List.getElem?_modify]
  cases chunks[i]? with
  | none => rfl
  | some known =>
    refine congrArg some ?_
    unfold retitle
    dsimp only
    split
    · split <;> rfl
    · rfl

/-- A chunk that is seen takes the next position. -/
theorem observeChunk_resolves (h : g.Resolves seen) (chunk : Json) :
    (g.observeChunk chunk).Resolves (seen ++ [chunk]) := by
  unfold observeChunk
  by_cases hempty : chunkUrl chunk = ""
  · rw [if_pos hempty]
    refine h.push rfl rfl (List.prefix_refl _) nofun ?_
    unfold urlAt
    rw [List.getElem?_cons_zero, Option.map_some, Option.filter_some_neg]
    · rfl
    · simpa using hempty
  · have hurl : urlAt [chunk] 0 = some (chunkUrl chunk) := by
      unfold urlAt
      rw [List.getElem?_cons_zero, Option.map_some, Option.filter_some_pos]
      simpa using hempty
    rw [if_neg hempty]
    cases hfound : g.chunks.findIdx? fun known => known.url = chunkUrl chunk with
    | some index =>
      obtain ⟨hindex, hknown, -⟩ := List.findIdx?_eq_some_iff_getElem.mp hfound
      have hurls := modify_url g.chunks index (chunkTitle chunk)
      refine h.push rfl rfl ?_ ?_ ?_
      · rw [hurls]
      · intro j hj
        cases hj
        rw [List.length_modify]
        exact hindex
      · rw [hurls, hurl, Option.bind_some, List.getElem?_map, List.getElem?_eq_getElem hindex, Option.map_some,
          of_decide_eq_true hknown]
    | none =>
      refine h.push rfl rfl ?_ ?_ ?_
      · rw [List.map_append]
        exact List.prefix_append _ _
      · intro j hj
        cases hj
        rw [List.length_append, List.length_singleton]
        omega
      · rw [hurl, Option.bind_some, List.getElem?_map, List.getElem?_concat_length]
        rfl

theorem observeChunks_resolves (h : g.Resolves seen) (chunks : List Json) :
    (chunks.foldl observeChunk g).Resolves (seen ++ chunks) := by
  induction chunks generalizing g seen with
  | nil =>
    rw [List.append_nil]
    exact h
  | cons chunk chunks ih =>
    have hlater := ih (observeChunk_resolves h chunk)
    rw [List.append_assoc] at hlater
    exact hlater

theorem observeQueries_frame (queries : List String) (g : GroundingAccumulator) :
    (queries.foldl observeQuery g).chunks = g.chunks ∧
      (queries.foldl observeQuery g).rawChunkMap = g.rawChunkMap ∧
      (queries.foldl observeQuery g).supports = g.supports := by
  induction queries generalizing g with
  | nil => exact ⟨rfl, rfl, rfl⟩
  | cons query queries ih =>
    have hstep : (g.observeQuery query).chunks = g.chunks ∧ (g.observeQuery query).rawChunkMap = g.rawChunkMap ∧
        (g.observeQuery query).supports = g.supports := by
      unfold observeQuery
      split
      · exact ⟨rfl, rfl, rfl⟩
      · exact ⟨rfl, rfl, rfl⟩
    obtain ⟨hchunks, hmap, hsupports⟩ := ih (g.observeQuery query)
    exact ⟨hchunks.trans hstep.1, hmap.trans hstep.2.1, hsupports.trans hstep.2.2⟩

theorem observeChunks_supports (chunks : List Json) (g : GroundingAccumulator) :
    (chunks.foldl observeChunk g).supports = g.supports := by
  induction chunks generalizing g with
  | nil => rfl
  | cons chunk chunks ih =>
    refine (ih (g.observeChunk chunk)).trans ?_
    unfold observeChunk
    dsimp only
    split
    · rfl
    · split <;> rfl

theorem observeSupports_frame (supports : List GroundingSupport) (g : GroundingAccumulator) :
    (supports.foldl observeSupport g).chunks = g.chunks ∧
      (supports.foldl observeSupport g).rawChunkMap = g.rawChunkMap ∧
      ∀ s, s ∈ (supports.foldl observeSupport g).supports ↔ s ∈ g.supports ∨ s ∈ supports := by
  induction supports generalizing g with
  | nil => exact ⟨rfl, rfl, fun s => by simp⟩
  | cons support supports ih =>
    have hstep : (g.observeSupport support).chunks = g.chunks ∧
        (g.observeSupport support).rawChunkMap = g.rawChunkMap ∧
        ∀ s, s ∈ (g.observeSupport support).supports ↔ s ∈ g.supports ∨ s = support := by
      unfold observeSupport
      split
      · rename_i hknown
        refine ⟨rfl, rfl, fun s => ⟨.inl, ?_⟩⟩
        rintro (hs | rfl)
        · exact hs
        · exact hknown
      · exact ⟨rfl, rfl, fun s => by simp⟩
    obtain ⟨hchunks, hmap, hsupports⟩ := ih (g.observeSupport support)
    refine ⟨hchunks.trans hstep.1, hmap.trans hstep.2.1, fun s => ?_⟩
    rw [List.foldl_cons, hsupports s, hstep.2.2 s, List.mem_cons, or_assoc]

theorem observeMetadata_spec (h : g.Resolves seen) (metadata : Json) :
    (g.observeMetadata metadata).Resolves (seen ++ metadataChunks metadata) ∧
      ∀ s, s ∈ (g.observeMetadata metadata).supports ↔ s ∈ g.supports ∨ s ∈ metadataSupports metadata := by
  unfold observeMetadata
  obtain ⟨hchunks, hmap, hsupports⟩ := observeQueries_frame (metadataQueries metadata) g
  have hlisted := observeChunks_resolves (h.congr hchunks hmap) (metadataChunks metadata)
  have hkept := observeChunks_supports (metadataChunks metadata) ((metadataQueries metadata).foldl observeQuery g)
  obtain ⟨hchunks', hmap', hsupports'⟩ := observeSupports_frame (metadataSupports metadata)
    ((metadataChunks metadata).foldl observeChunk ((metadataQueries metadata).foldl observeQuery g))
  refine ⟨hlisted.congr hchunks' hmap', fun s => ?_⟩
  rw [hsupports' s, hkept, hsupports]

end

end GroundingAccumulator

/-! ## What was received -/

open GroundingAccumulator

/-- The list in force behind a metadata object. -/
def listAfter (list : Option (List Json)) (metadata : Json) : Option (List Json) :=
  ((metadata.getOr "groundingChunks" "grounding_chunks").bind Json.asArray).orElse fun _ => list

/-- The supports that came with a list or after one, each with the list in force. -/
def received : Option (List Json) → List Json → List (GroundingSupport × List Json)
  | _, [] => []
  | list, metadata :: metadatas =>
    ((listAfter list metadata).toList.flatMap fun list => (metadataSupports metadata).map fun s => (s, list)) ++
      received (listAfter list metadata) metadatas

/-- Every list extends or repeats the one before it. -/
def Extending : Option (List Json) → List Json → Prop
  | _, [] => True
  | list, metadata :: metadatas =>
    list.getD [] <+: (listAfter list metadata).getD [] ∧ Extending (listAfter list metadata) metadatas

def observed (metadatas : List Json) : GroundingAccumulator := metadatas.foldl observeMetadata {}

theorem observed_spec (metadatas : List Json) {g : GroundingAccumulator} {seen : List Json} (h : g.Resolves seen) :
    (metadatas.foldl observeMetadata g).Resolves (seen ++ metadatas.flatMap metadataChunks) ∧
      ∀ s, s ∈ (metadatas.foldl observeMetadata g).supports ↔
        s ∈ g.supports ∨ s ∈ metadatas.flatMap metadataSupports := by
  induction metadatas generalizing g seen with
  | nil =>
    rw [List.flatMap_nil, List.append_nil]
    exact ⟨h, fun s => by simp⟩
  | cons metadata metadatas ih =>
    obtain ⟨hresolves, hsupports⟩ := observeMetadata_spec h metadata
    obtain ⟨hresolves', hsupports'⟩ := ih hresolves
    rw [List.append_assoc] at hresolves'
    refine ⟨hresolves', fun s => ?_⟩
    rw [List.foldl_cons, hsupports' s, hsupports s, List.flatMap_cons, List.mem_append, or_assoc]

theorem support_of_received {metadatas : List Json} {list : Option (List Json)} {s : GroundingSupport}
    {later : List Json} (h : (s, later) ∈ received list metadatas) :
    s ∈ metadatas.flatMap metadataSupports := by
  induction metadatas generalizing list with
  | nil => cases h
  | cons metadata metadatas ih =>
    rw [received, List.mem_append] at h
    rw [List.flatMap_cons, List.mem_append]
    obtain h | h := h
    · obtain ⟨_, -, h⟩ := List.mem_flatMap.mp h
      obtain ⟨s', hs', heq⟩ := List.mem_map.mp h
      cases heq
      exact .inl hs'
    · exact .inr (ih h)

/-! ## Segments and text -/

def scalarStarts : ℕ → List Char → List ℕ
  | _, [] => []
  | start, c :: cs => start :: scalarStarts (start + c.utf8Size) cs

/-- A scalar of the selected text begins in the segment. -/
def Overlaps (support : GroundingSupport) (mappings : List TextMapping) : Prop :=
  ∃ start ∈ scalarStarts 0 ((selected support mappings).flatMap fun mapping => mapping.text.toList),
    support.startByte ≤ start ∧ start < support.endByte

theorem scalarStarts_add (start : ℕ) (cs : List Char) :
    scalarStarts start cs = (scalarStarts 0 cs).map (start + ·) := by
  induction cs generalizing start with
  | nil => rfl
  | cons c cs ih =>
    rw [scalarStarts, scalarStarts, ih (start + c.utf8Size), ih (0 + c.utf8Size), List.map_cons, List.map_map]
    congr 1
    apply List.map_congr_left
    intro x _
    dsimp only [Function.comp_apply]
    omega

theorem scalarStarts_append (start : ℕ) (cs ds : List Char) :
    scalarStarts start (cs ++ ds) = scalarStarts start cs ++ scalarStarts (start + utf8Len cs) ds := by
  induction cs generalizing start with
  | nil => simp [scalarStarts]
  | cons c cs ih =>
    rw [List.cons_append, scalarStarts, scalarStarts, ih, List.cons_append]
    simp
    congr 1
    omega

theorem lt_of_mem_scalarStarts {start b : ℕ} {cs : List Char} (h : b ∈ scalarStarts start cs) :
    start ≤ b ∧ b < start + utf8Len cs := by
  induction cs generalizing start with
  | nil => cases h
  | cons c cs ih =>
    have hpos : 0 < c.utf8Size := c.utf8Size_pos
    rw [scalarStarts, List.mem_cons] at h
    simp
    obtain rfl | h := h
    · omega
    · have hlater := ih h
      omega

theorem scalarsBefore_eq (cs : List Char) (n : ℕ) : scalarsBefore cs n = (scalarStarts 0 cs).countP (· < n) := by
  induction cs generalizing n with
  | nil => rfl
  | cons c cs ih =>
    rw [scalarsBefore, scalarStarts, List.countP_cons, scalarStarts_add, List.countP_map]
    by_cases h : n = 0
    · subst h
      simp
    · rw [if_neg h, ih]
      have hcount : (scalarStarts 0 cs).countP (· < n - c.utf8Size) =
          (scalarStarts 0 cs).countP ((fun x => decide (x < n)) ∘ fun x => 0 + c.utf8Size + x) := by
        apply List.countP_congr
        intro x _
        simp
        omega
      rw [hcount]
      simp
      omega

theorem utf8ByteSize_eq (text : String) : text.utf8ByteSize = utf8Len text.toList := by
  rw [← utf8ByteSize_ofList, ofList_toList]

theorem overlap_eq_none (startByte endByte mappingStart : ℕ) (mapping : TextMapping) :
    overlap startByte endByte mappingStart mapping = none ↔
      ∀ b ∈ scalarStarts mappingStart mapping.text.toList, ¬(startByte ≤ b ∧ b < endByte) := by
  have hinside : ∀ b ∈ scalarStarts 0 mapping.text.toList, b < mapping.text.utf8ByteSize := by
    intro b hb
    have hlt := (lt_of_mem_scalarStarts hb).2
    rw [utf8ByteSize_eq]
    omega
  rw [scalarStarts_add, List.forall_mem_map]
  unfold overlap
  by_cases hempty : min endByte (mappingStart + mapping.text.utf8ByteSize) ≤ max startByte mappingStart
  · rw [if_pos hempty]
    refine iff_of_true rfl fun b hb hin => ?_
    have hlt := hinside b hb
    omega
  · rw [if_neg hempty]
    unfold scalarOffset
    rw [scalarsBefore_eq, scalarsBefore_eq]
    have hsplit : (scalarStarts 0 mapping.text.toList).countP
          (· < min (min endByte (mappingStart + mapping.text.utf8ByteSize) - mappingStart) mapping.text.utf8ByteSize) =
        (scalarStarts 0 mapping.text.toList).countP
          (· < min (max startByte mappingStart - mappingStart) mapping.text.utf8ByteSize) +
        (scalarStarts 0 mapping.text.toList).countP
          (fun b => startByte ≤ mappingStart + b ∧ mappingStart + b < endByte) := by
      generalize scalarStarts 0 mapping.text.toList = starts at hinside
      induction starts with
      | nil => rfl
      | cons b starts ih =>
        have hlt := hinside b List.mem_cons_self
        have hrest := ih fun b' hb' => hinside b' (List.mem_cons_of_mem b hb')
        rw [List.countP_cons, List.countP_cons, List.countP_cons, hrest]
        simp only [decide_eq_true_eq]
        split_ifs <;> omega
    rw [hsplit]
    by_cases hnone : (scalarStarts 0 mapping.text.toList).countP
        (fun b => startByte ≤ mappingStart + b ∧ mappingStart + b < endByte) = 0
    · rw [if_pos (by omega)]
      refine iff_of_true rfl fun b hb hin => ?_
      rw [List.countP_eq_zero] at hnone
      exact hnone b hb (decide_eq_true hin)
    · rw [if_neg (by omega)]
      refine iff_of_false nofun fun hall => hnone ?_
      rw [List.countP_eq_zero]
      intro b hb hin
      exact hall b hb (of_decide_eq_true hin)

theorem pushRange_ne_nil (ranges : List MappedRange) (range : MappedRange) : pushRange ranges range ≠ [] := by
  unfold pushRange
  split
  · simp
  · split <;> simp

theorem collectRanges_eq_nil {startByte endByte cumulative : ℕ} {ranges : List MappedRange}
    {mappings : List TextMapping} : collectRanges startByte endByte cumulative ranges mappings = [] ↔
      ranges = [] ∧ ∀ b ∈ scalarStarts cumulative (mappings.flatMap fun mapping => mapping.text.toList),
        ¬(startByte ≤ b ∧ b < endByte) := by
  induction mappings generalizing cumulative ranges with
  | nil => simp [collectRanges, scalarStarts]
  | cons mapping mappings ih =>
    have hpart := overlap_eq_none startByte endByte cumulative mapping
    rw [collectRanges, ih, List.flatMap_cons, scalarStarts_append, List.forall_mem_append, ← hpart, utf8ByteSize_eq]
    cases hoverlap : overlap startByte endByte cumulative mapping with
    | none => simp
    | some range => simp [pushRange_ne_nil]

theorem total_eq (mappings : List TextMapping) : (mappings.map fun mapping => mapping.text.utf8ByteSize).sum =
    utf8Len (mappings.flatMap fun mapping => mapping.text.toList) := by
  induction mappings with
  | nil => rfl
  | cons mapping mappings ih =>
    rw [List.map_cons, List.sum_cons, ih, List.flatMap_cons, utf8Len_append, utf8ByteSize_eq]

/-- A support has no range exactly if no scalar of the text begins in it. -/
theorem mappedRanges_eq_nil (support : GroundingSupport) (mappings : List TextMapping) :
    mappedRanges (selected support mappings) support.startByte support.endByte = [] ↔ ¬Overlaps support mappings := by
  unfold mappedRanges Overlaps
  dsimp only
  rw [total_eq]
  generalize hcs : ((selected support mappings).flatMap fun mapping => mapping.text.toList) = cs
  have hinside : ∀ b ∈ scalarStarts 0 cs, b < utf8Len cs := by
    intro b hb
    have hlt := (lt_of_mem_scalarStarts hb).2
    omega
  split
  · rename_i hout
    refine iff_of_true rfl ?_
    rintro ⟨b, hb, hin⟩
    have hlt := hinside b hb
    obtain hnil | hout | hout := hout
    · rw [hnil] at hcs
      rw [← hcs] at hb
      cases hb
    · omega
    · omega
  · rename_i hin
    rw [collectRanges_eq_nil, hcs]
    constructor
    · rintro ⟨-, hall⟩ ⟨b, hb, hrange⟩
      have hlt := hinside b hb
      exact hall b hb (by omega)
    · intro hnone
      refine ⟨rfl, fun b hb hrange => hnone ⟨b, hb, ?_⟩⟩
      omega

/-! ## The result -/

/-- The citations of every support name the chunks that it cites. -/
structure SourcesNamed (metadatas : List Json) (mappings : List TextMapping) : Prop where
  named : ∀ s list, (s, list) ∈ received none metadatas → ∀ i ∈ s.rawChunkIndices,
    ∀ c ∈ (observed metadatas).citationsAt mappings s i, ∃ chunk, list[i]? = some chunk ∧ c.url = chunkUrl chunk
  produced : ∀ s list, (s, list) ∈ received none metadatas → Overlaps s mappings → ∀ i ∈ s.rawChunkIndices,
    ∀ chunk, list[i]? = some chunk → chunkUrl chunk ≠ "" →
      ∃ c ∈ (observed metadatas).citationsAt mappings s i, c.url = chunkUrl chunk
  kept : ∀ s list, (s, list) ∈ received none metadatas → ∀ i ∈ s.rawChunkIndices,
    ∀ c ∈ (observed metadatas).citationsAt mappings s i, ∃ c' ∈ (observed metadatas).citations mappings, c'.key = c.key
  made : ∀ c ∈ (observed metadatas).citations mappings, ∃ s ∈ metadatas.flatMap metadataSupports,
    ∃ i ∈ s.rawChunkIndices, c ∈ (observed metadatas).citationsAt mappings s i
  once : (((observed metadatas).citations mappings).map key).Nodup

/-- Every citation is pushed once. -/
theorem pushCitations_spec (cs : List GroundingCitation) {citations : List GroundingCitation}
    (hnodup : (citations.map key).Nodup) :
    ((cs.foldl pushCitation citations).map key).Nodup ∧
      (∀ c ∈ cs.foldl pushCitation citations, c ∈ citations ∨ c ∈ cs) ∧
      ∀ c, c ∈ citations ∨ c ∈ cs → ∃ c' ∈ cs.foldl pushCitation citations, c'.key = c.key := by
  induction cs generalizing citations with
  | nil =>
    refine ⟨hnodup, fun c hc => .inl hc, ?_⟩
    rintro c (hc | hc)
    · exact ⟨c, hc, rfl⟩
    · cases hc
  | cons c cs ih =>
    rw [List.foldl_cons]
    unfold pushCitation
    by_cases hknown : c.key ∈ citations.map key
    · rw [if_pos hknown]
      obtain ⟨hkeys, hfrom, hto⟩ := ih hnodup
      refine ⟨hkeys, fun x hx => (hfrom x hx).imp_right (List.mem_cons_of_mem c), ?_⟩
      rintro x (hx | hx)
      · exact hto x (.inl hx)
      · obtain rfl | hx := List.mem_cons.mp hx
        · obtain ⟨c', hc', hkey⟩ := List.mem_map.mp hknown
          obtain ⟨c'', hc'', hkey'⟩ := hto c' (.inl hc')
          exact ⟨c'', hc'', hkey'.trans hkey⟩
        · exact hto x (.inr hx)
    · rw [if_neg hknown]
      have hfresh : ((citations ++ [c]).map key).Nodup := by
        rw [List.map_append, List.nodup_append]
        refine ⟨hnodup, List.nodup_singleton _, ?_⟩
        intro key hkey key' hkey' hsame
        rw [List.map_singleton, List.mem_singleton] at hkey'
        exact hknown (hkey' ▸ hsame ▸ hkey)
      obtain ⟨hkeys, hfrom, hto⟩ := ih hfresh
      refine ⟨hkeys, fun x hx => ?_, ?_⟩
      · obtain hx | hx := hfrom x hx
        · obtain hx | hx := List.mem_append.mp hx
          · exact .inl hx
          · exact .inr (List.mem_singleton.mp hx ▸ List.mem_cons_self)
        · exact .inr (List.mem_cons_of_mem c hx)
      · rintro x (hx | hx)
        · exact hto x (.inl (List.mem_append_left _ hx))
        · obtain rfl | hx := List.mem_cons.mp hx
          · exact hto x (.inl (List.mem_append_right _ (List.mem_singleton.mpr rfl)))
          · exact hto x (.inr hx)

theorem resolves_default : ({} : GroundingAccumulator).Resolves [] := by
  refine ⟨rfl, nofun, fun i => ?_⟩
  rfl

/-- The sources are named exactly if every cited position means the same in the lists written one behind the
other as in the list that the support came with. -/
theorem sources_named_iff (metadatas : List Json) (mappings : List TextMapping) :
    SourcesNamed metadatas mappings ↔
      ∀ s list, (s, list) ∈ received none metadatas → Overlaps s mappings → ∀ i ∈ s.rawChunkIndices,
        urlAt (metadatas.flatMap metadataChunks) i = urlAt list i := by
  obtain ⟨hresolves, hsupports⟩ := observed_spec metadatas resolves_default
  rw [List.nil_append] at hresolves
  change (observed metadatas).Resolves _ at hresolves
  have hplace : ∀ s i, (urlAt (metadatas.flatMap metadataChunks) i = none ∧
        (observed metadatas).citationsAt mappings s i = []) ∨
      ∃ chunk, urlAt (metadatas.flatMap metadataChunks) i = some chunk.url ∧
        (observed metadatas).citationsAt mappings s i =
          (mappedRanges (selected s mappings) s.startByte s.endByte).map (cite chunk) := by
    intro s i
    have hurl := hresolves.url i
    unfold citationsAt
    cases hchunk : (observed metadatas).chunkAt i with
    | none =>
      rw [hchunk] at hurl
      exact .inl ⟨hurl.symm, rfl⟩
    | some chunk =>
      rw [hchunk] at hurl
      exact .inr ⟨chunk, hurl.symm, rfl⟩
  constructor
  · intro h s list hs hoverlaps i hi
    have hranges := (mappedRanges_eq_nil s mappings).not.mpr (not_not.mpr hoverlaps)
    obtain ⟨hnone, hcitations⟩ | ⟨chunk, hurl, hcitations⟩ := hplace s i
    · rw [hnone]
      cases hlist : urlAt list i with
      | none => rfl
      | some url =>
        obtain ⟨hne, chunk, hchunk, rfl⟩ := urlAt_eq_some.mp hlist
        obtain ⟨c, hc, -⟩ := h.produced s list hs hoverlaps i hi chunk hchunk hne
        rw [hcitations] at hc
        cases hc
    · obtain ⟨range, hrange⟩ := List.exists_mem_of_ne_nil _ hranges
      have hmem : cite chunk range ∈ (observed metadatas).citationsAt mappings s i := by
        rw [hcitations]
        exact List.mem_map_of_mem hrange
      obtain ⟨chunk', hchunk', hsame⟩ := h.named s list hs i hi _ hmem
      obtain ⟨hne, -⟩ := urlAt_eq_some.mp hurl
      rw [hurl]
      exact (urlAt_eq_some.mpr ⟨hne, chunk', hchunk', hsame.symm⟩).symm
  · intro h
    obtain ⟨honce, hfrom, hto⟩ := @pushCitations_spec ((observed metadatas).supports.flatMap fun support =>
      support.rawChunkIndices.flatMap fun rawIndex =>
        (observed metadatas).citationsAt mappings support rawIndex) [] List.nodup_nil
    have hkept : ∀ s, s ∈ (observed metadatas).supports ↔ s ∈ metadatas.flatMap metadataSupports := by
      intro s
      refine (hsupports s).trans ?_
      simp
    constructor
    · intro s list hs i hi c hc
      obtain ⟨-, hcitations⟩ | ⟨chunk, hurl, hcitations⟩ := hplace s i
      · rw [hcitations] at hc
        cases hc
      · rw [hcitations] at hc
        obtain ⟨range, hrange, rfl⟩ := List.mem_map.mp hc
        have hoverlaps : Overlaps s mappings :=
          not_not.mp ((mappedRanges_eq_nil s mappings).not.mp (List.ne_nil_of_mem hrange))
        rw [h s list hs hoverlaps i hi] at hurl
        obtain ⟨-, chunk', hchunk', hsame⟩ := urlAt_eq_some.mp hurl
        exact ⟨chunk', hchunk', hsame.symm⟩
    · intro s list hs hoverlaps i hi chunk hchunk hne
      have hlist : urlAt list i = some (chunkUrl chunk) := urlAt_eq_some.mpr ⟨hne, chunk, hchunk, rfl⟩
      rw [← h s list hs hoverlaps i hi] at hlist
      obtain ⟨hnone, -⟩ | ⟨chunk', hurl, hcitations⟩ := hplace s i
      · rw [hnone] at hlist
        cases hlist
      · have hranges := (mappedRanges_eq_nil s mappings).not.mpr (not_not.mpr hoverlaps)
        obtain ⟨range, hrange⟩ := List.exists_mem_of_ne_nil _ hranges
        rw [hlist] at hurl
        rw [hcitations]
        exact ⟨cite chunk' range, List.mem_map_of_mem hrange, (Option.some.inj hurl).symm⟩
    · intro s list hs i hi c hc
      refine hto c (.inr ?_)
      exact List.mem_flatMap.mpr ⟨s, (hkept s).mpr (support_of_received hs), List.mem_flatMap.mpr ⟨i, hi, hc⟩⟩
    · intro c hc
      obtain hc | hc := hfrom c hc
      · cases hc
      · obtain ⟨s, hs, hc⟩ := List.mem_flatMap.mp hc
        obtain ⟨i, hi, hc⟩ := List.mem_flatMap.mp hc
        exact ⟨s, (hkept s).mp hs, i, hi, hc⟩
    · exact honce

theorem received_cons {metadata : Json} {metadatas : List Json} {list : Option (List Json)} {s : GroundingSupport}
    {later : List Json} (h : (s, later) ∈ received list (metadata :: metadatas)) :
    listAfter list metadata = some later ∨ (s, later) ∈ received (listAfter list metadata) metadatas := by
  rw [received, List.mem_append] at h
  obtain h | h := h
  · obtain ⟨inForce, hinForce, h⟩ := List.mem_flatMap.mp h
    obtain ⟨_, -, heq⟩ := List.mem_map.mp h
    cases heq
    exact .inl (Option.mem_toList.mp hinForce)
  · exact .inr h

theorem prefix_of_received {metadatas : List Json} {list : Option (List Json)} {s : GroundingSupport}
    {later : List Json} (h : Extending list metadatas) (hs : (s, later) ∈ received list metadatas) :
    list.getD [] <+: later := by
  induction metadatas generalizing list with
  | nil => cases hs
  | cons metadata metadatas ih =>
    obtain ⟨hgrown, hrest⟩ := h
    obtain hs | hs := received_cons hs
    · rw [hs] at hgrown
      exact hgrown
    · exact hgrown.trans (ih hrest hs)

/-- Where every list extends the one before it, the positions of the first list keep their urls: only what a later
list adds is misplaced. -/
theorem same_url_of_first {metadatas first later : List Json} {s : GroundingSupport} {i : ℕ}
    (h : Extending none metadatas) (hfirst : metadatas.findSome? (listAfter none) = some first)
    (hs : (s, later) ∈ received none metadatas) (hi : i < first.length) :
    urlAt (metadatas.flatMap metadataChunks) i = urlAt later i := by
  induction metadatas with
  | nil => cases hs
  | cons metadata metadatas ih =>
    obtain ⟨-, hrest⟩ := h
    have hown : metadataChunks metadata = (listAfter none metadata).getD [] := by
      unfold metadataChunks listAfter
      cases (metadata.getOr "groundingChunks" "grounding_chunks").bind Json.asArray <;> rfl
    have hcases := received_cons hs
    rw [List.flatMap_cons, hown]
    rw [List.findSome?_cons] at hfirst
    cases hlist : listAfter none metadata with
    | none =>
      rw [hlist] at hcases hfirst hrest
      obtain hs | hs := hcases
      · cases hs
      · exact ih hrest hfirst hs
    | some list =>
      rw [hlist] at hcases hfirst hrest
      cases hfirst
      have hprefix : first <+: later := by
        obtain hs | hs := hcases
        · cases hs
          exact List.prefix_refl _
        · exact prefix_of_received hrest hs
      obtain ⟨more, rfl⟩ := hprefix
      exact (urlAt_append_left hi).trans (urlAt_append_left hi).symm

def sourceChunk (uri : String) : Json := .object [("web", .object [("uri", .string uri)])]

/-- A list of one chunk, and the longer list with a support for its second chunk. -/
def grownMetadata : List Json :=
  [.object [("groundingChunks", .array [sourceChunk "https://a.test"])],
    .object [("groundingChunks", .array [sourceChunk "https://a.test", sourceChunk "https://b.test"]),
      ("groundingSupports", .array [.object [("segment", .object [("endIndex", .number (.posInt 4))]),
          ("groundingChunkIndices", .array [.number (.posInt 1)])]])]]

def wordMapping : TextMapping := ⟨0, 0, 0, "word"⟩

/-- The second chunk is cited with the url of the first one. -/
theorem grown_list_misnamed : Extending none grownMetadata ∧
    ((observed grownMetadata).citations [wordMapping]).map GroundingCitation.url = ["https://a.test"] ∧
    ¬SourcesNamed grownMetadata [wordMapping] := by
  have hreceived : (⟨none, 0, 4, [1]⟩, [sourceChunk "https://a.test", sourceChunk "https://b.test"]) ∈
      received none grownMetadata := List.mem_cons_self
  have hcited : (observed grownMetadata).citationsAt [wordMapping] ⟨none, 0, 4, [1]⟩ 1 =
      [⟨0, 0, 4, "https://a.test", "", "word"⟩] := by decide
  have hurl : chunkUrl (sourceChunk "https://b.test") ≠ "https://a.test" := by decide
  refine ⟨⟨⟨_, rfl⟩, ⟨_, rfl⟩, trivial⟩, by decide, fun h => ?_⟩
  have hnamed := h.named _ _ hreceived 1 List.mem_cons_self _ (hcited ▸ List.mem_cons_self)
  obtain ⟨chunk, hchunk, hsame⟩ := hnamed
  cases hchunk
  exact hurl hsame.symm

end CcSwitchServer.GeminiStream
