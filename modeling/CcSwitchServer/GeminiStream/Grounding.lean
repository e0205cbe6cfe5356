import CcSwitchServer.Foundations.Json
import CcSwitchServer.Foundations.Text

/-! # Grounding of Gemini answers (`src/proxy/gemini_grounding.rs`)

The accumulator collects queries, chunks and supports, and turns the supports into citations.
-/

namespace CcSwitchServer.GeminiStream
open Foundations

structure GroundingChunk where
  url : String
  title : String
deriving DecidableEq, Repr

/-- A range of bytes of the answer and the positions of the chunks that it rests on. -/
structure GroundingSupport where
  partIndex : Option ℕ
  startByte : ℕ
  endByte : ℕ
  rawChunkIndices : List ℕ
deriving DecidableEq, Repr

/-- A piece of the answer: the part it came from and where it stands in a block. -/
structure TextMapping where
  partIndex : ℕ
  blockIndex : ℕ
  startScalarInBlock : ℕ
  text : String
deriving DecidableEq, Repr

/-- A range of scalars in a block and the source it is attributed to. -/
structure GroundingCitation where
  blockIndex : ℕ
  startIndex : ℕ
  endIndex : ℕ
  url : String
  title : String
  citedText : String
deriving DecidableEq, Repr

/-- The sets of text keys are modelled by what the keys are made of. -/
structure GroundingAccumulator where
  queries : List String := []
  chunks : List GroundingChunk := []
  rawChunkMap : List (Option ℕ) := []
  supports : List GroundingSupport := []
deriving DecidableEq, Repr

/-! ## Reading metadata -/

def trimmedText (v : Option Json) : String := ((v.bind Json.asStr).map Text.trim).getD ""

def chunkUrl (chunk : Json) : String := trimmedText (((chunk.get "web").getD chunk).getOr "uri" "url")

def chunkTitle (chunk : Json) : String := trimmedText (((chunk.get "web").getD chunk).get "title")

def metadataQueries (metadata : Json) : List String :=
  (((metadata.getOr "webSearchQueries" "web_search_queries").bind Json.asArray).getD []).filterMap fun query =>
    (query.asStr.map Text.trim).filter (· ≠ "")

def metadataChunks (metadata : Json) : List Json :=
  ((metadata.getOr "groundingChunks" "grounding_chunks").bind Json.asArray).getD []

/-- A support that ends behind its start and names a chunk. -/
def readSupport (support : Json) : Option GroundingSupport := do
  let segment := (support.get "segment").getD .null
  let partIndex := (segment.getOr "partIndex" "part_index").bind Json.asU64
  let startByte := ((segment.getOr "startIndex" "start_index").bind Json.asU64).getD 0
  let endByte ← (segment.getOr "endIndex" "end_index").bind Json.asU64
  let rawChunkIndices :=
    (((support.getOr "groundingChunkIndices" "grounding_chunk_indices").bind Json.asArray).getD []).filterMap
      Json.asU64
  if endByte ≤ startByte then none
  else if rawChunkIndices = [] then none
  else some ⟨partIndex, startByte, endByte, rawChunkIndices⟩

def metadataSupports (metadata : Json) : List GroundingSupport :=
  (((metadata.getOr "groundingSupports" "grounding_supports").bind Json.asArray).getD []).filterMap readSupport

namespace GroundingAccumulator

variable (g : GroundingAccumulator)

def observeQuery (query : String) : GroundingAccumulator :=
  if query ∈ g.queries then g else { g with queries := g.queries ++ [query] }

/-- A known chunk gets the title that it lacked. -/
def retitle (chunk : GroundingChunk) (title : String) : GroundingChunk :=
  if chunk.title = "" ∧ title ≠ "" then { chunk with title := title } else chunk

/-- Every chunk takes the next place of the raw map, also one that is known or has no url. -/
def observeChunk (chunk : Json) : GroundingAccumulator :=
  let url := chunkUrl chunk
  let title := chunkTitle chunk
  if url = "" then { g with rawChunkMap := g.rawChunkMap ++ [none] }
  else
    match g.chunks.findIdx? fun known => known.url = url with
    | some index =>
      { g with
        chunks := g.chunks.modify index fun known => retitle known title
        rawChunkMap := g.rawChunkMap ++ [some index] }
    | none =>
      { g with
        chunks := g.chunks ++ [⟨url, title⟩]
        rawChunkMap := g.rawChunkMap ++ [some g.chunks.length] }

def observeSupport (support : GroundingSupport) : GroundingAccumulator :=
  if support ∈ g.supports then g else { g with supports := g.supports ++ [support] }

def observeMetadata (metadata : Json) : GroundingAccumulator :=
  (metadataSupports metadata).foldl observeSupport
    ((metadataChunks metadata).foldl observeChunk ((metadataQueries metadata).foldl observeQuery g))

def observeCandidate (candidate : Json) : GroundingAccumulator :=
  match candidate.getOr "groundingMetadata" "grounding_metadata" with
  | some metadata => g.observeMetadata metadata
  | none => g

def fromCandidate (candidate : Json) : GroundingAccumulator := observeCandidate {} candidate

def hasWebGrounding : Bool := g.queries ≠ [] ∨ g.chunks ≠ []

def primaryQuery : String := g.queries.head?.getD ""

end GroundingAccumulator

/-! ## Ranges of scalars -/

/-- A part of a support inside one block. -/
structure MappedRange where
  blockIndex : ℕ
  startIndex : ℕ
  endIndex : ℕ
  citedText : String
deriving DecidableEq, Repr

def scalarsBefore : List Char → ℕ → ℕ
  | [], _ => 0
  | c :: cs, byteOffset => if byteOffset = 0 then 0 else scalarsBefore cs (byteOffset - c.utf8Size) + 1

/-- How many scalars begin before a byte. -/
def scalarOffset (text : String) (byteOffset : ℕ) : ℕ := scalarsBefore text.toList (min byteOffset text.utf8ByteSize)

/-- A range that goes on where the last one ends is glued to it. -/
def pushRange (ranges : List MappedRange) (range : MappedRange) : List MappedRange :=
  match ranges.getLast? with
  | none => [range]
  | some previous =>
    if previous.blockIndex = range.blockIndex ∧ previous.endIndex = range.startIndex then
      ranges.dropLast ++
        [{ previous with endIndex := range.endIndex, citedText := previous.citedText ++ range.citedText }]
    else ranges ++ [range]

/-- The part of the segment in a mapping that begins at `mappingStart`. -/
def overlap (startByte endByte mappingStart : ℕ) (mapping : TextMapping) : Option MappedRange :=
  let overlapStart := max startByte mappingStart
  let overlapEnd := min endByte (mappingStart + mapping.text.utf8ByteSize)
  if overlapEnd ≤ overlapStart then none
  else
    let startScalar := scalarOffset mapping.text (overlapStart - mappingStart)
    let endScalar := scalarOffset mapping.text (overlapEnd - mappingStart)
    if endScalar ≤ startScalar then none
    else
      some
        { blockIndex := mapping.blockIndex
          startIndex := mapping.startScalarInBlock + startScalar
          endIndex := mapping.startScalarInBlock + endScalar
          citedText := String.ofList ((mapping.text.toList.drop startScalar).take (endScalar - startScalar)) }

def collectRanges (startByte endByte : ℕ) : ℕ → List MappedRange → List TextMapping → List MappedRange
  | _, ranges, [] => ranges
  | cumulative, ranges, mapping :: mappings =>
    collectRanges startByte endByte (cumulative + mapping.text.utf8ByteSize)
      (match overlap startByte endByte cumulative mapping with
        | none => ranges
        | some range => pushRange ranges range) mappings

/-- The ranges of a segment in the blocks; a segment behind the text has none. -/
def mappedRanges (mappings : List TextMapping) (startByte endByte : ℕ) : List MappedRange :=
  let totalBytes := (mappings.map fun mapping => mapping.text.utf8ByteSize).sum
  if mappings = [] ∨ endByte ≤ startByte ∨ totalBytes ≤ startByte then []
  else
    let endByte := min endByte totalBytes
    collectRanges (min startByte endByte) endByte 0 [] mappings

/-! ## Citations -/

namespace GroundingAccumulator

def selected (support : GroundingSupport) (mappings : List TextMapping) : List TextMapping :=
  mappings.filter fun mapping => support.partIndex.all fun partIndex => mapping.partIndex = partIndex

def chunkAt (g : GroundingAccumulator) (rawIndex : ℕ) : Option GroundingChunk := do
  let index ← (g.rawChunkMap[rawIndex]?).join
  g.chunks[index]?

def cite (chunk : GroundingChunk) (range : MappedRange) : GroundingCitation where
  blockIndex := range.blockIndex
  startIndex := range.startIndex
  endIndex := range.endIndex
  url := chunk.url
  title := chunk.title
  citedText := range.citedText

/-- What a support gives for one of its positions. -/
def citationsAt (g : GroundingAccumulator) (mappings : List TextMapping) (support : GroundingSupport)
    (rawIndex : ℕ) : List GroundingCitation :=
  match g.chunkAt rawIndex with
  | none => []
  | some chunk =>
    (mappedRanges (selected support mappings) support.startByte support.endByte).map (cite chunk)

end GroundingAccumulator

/-- Two citations with one key are one. -/
def GroundingCitation.key (c : GroundingCitation) : ℕ × String × ℕ × ℕ :=
  (c.blockIndex, c.url, c.startIndex, c.endIndex)

instance lawfulBEqKey : LawfulBEq (ℕ × String × ℕ × ℕ) := inferInstance

def pushCitation (citations : List GroundingCitation) (c : GroundingCitation) : List GroundingCitation :=
  if c.key ∈ citations.map GroundingCitation.key then citations else citations ++ [c]

namespace GroundingAccumulator

def citations (g : GroundingAccumulator) (mappings : List TextMapping) : List GroundingCitation :=
  (g.supports.flatMap fun support =>
    support.rawChunkIndices.flatMap fun rawIndex => g.citationsAt mappings support rawIndex).foldl pushCitation []

end GroundingAccumulator

end CcSwitchServer.GeminiStream
