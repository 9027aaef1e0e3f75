import Mathlib.Logic.Function.Basic
import ObjectStorage.AccountInfo.BlockUpdates
import ObjectStorage.InfoFile.SorterOrder

/-!
Which containers of a list an update adds to the file, and which blocks the list deletes before
that. Both are read off the hashes and the deleted flags of the blocks.
-/

namespace ObjectStorage.AccountInfo

open Std InfoFile

/-! ### What a list finds in the blocks -/

namespace AccountFile

/-- The deleted flag of the first block of the container, if there is one. -/
def firstFlag (blocks : List ContainerRecord) (hash : String) : List Bool :=
  ((findHash hash blocks).map (·.deleted)).toList

/-- Of every part one block of the container is looked at. -/
def firstFlags (parts : List (List ContainerRecord)) (hash : String) : List Bool :=
  parts.flatMap (firstFlag · hash)

/-- The records of the list that stay in it. A deletion marks the first of the blocks, and every
other record needs one that is not deleted. -/
def unplaced : (String → List Bool) → List ContainerRecord → List ContainerRecord
  | _, [] => []
  | flags, r :: records =>
      if r.deleted then
        if flags r.hash = [] then r :: unplaced flags records
        else unplaced (Function.update flags r.hash ((flags r.hash).set 0 true)) records
      else if (flags r.hash).all id then r :: unplaced flags records
      else unplaced flags records

/-- The first block of the container is marked as deleted. -/
def markFirst (hash : String) : List ContainerRecord → List ContainerRecord
  | [] => []
  | block :: blocks =>
      if block.hash = hash then { block with deleted := true } :: blocks
      else block :: markFirst hash blocks

def markAll (hashes : List String) (blocks : List ContainerRecord) : List ContainerRecord :=
  hashes.foldl (fun blocks hash => markFirst hash blocks) blocks

/-- The containers that the list deletes. -/
def deletions (records : List ContainerRecord) : List String :=
  (records.filter (·.deleted)).map (·.hash)

def pieces (limit : Nat) : Nat → List ContainerRecord → List (List ContainerRecord)
  | 0, _ => []
  | fuel + 1, blocks =>
      if blocks = [] then [] else blocks.take limit :: pieces limit fuel (blocks.drop limit)

/-- The parts of the file in the order in which an update goes through them. -/
def parts (file : AccountFile) : List (List ContainerRecord) :=
  file.unsorted.reverse :: pieces maxReadNonStaticRecord file.trailer.sortedRecord file.sorted

/-- The records of the list that are appended. -/
def addedContainers (file : AccountFile) (records : List ContainerRecord) : List ContainerRecord :=
  (unplaced (firstFlags file.parts) records).filter (! ·.deleted)

/-- The file with the blocks marked that the list deletes. -/
def deleting (file : AccountFile) (records : List ContainerRecord) : AccountFile :=
  let blocks := markAll (deletions records) (file.unsorted.reverse ++ file.sorted)
  { file with
    blocks := blocks.drop file.unsorted.length ++ (blocks.take file.unsorted.length).reverse }

/-! ### Outlines of blocks -/

/-- What of a block decides about updates and compactions. -/
def outline (record : ContainerRecord) : ContainerRecord :=
  { record with objectCount := 0, bytesUsed := 0 }

variable {blocks blocks' : List ContainerRecord} {hash : String}

theorem findHash_map_outline (hash : String) (blocks : List ContainerRecord) :
    findHash hash (blocks.map outline) = (findHash hash blocks).map outline := by
  rw [findHash, List.find?_map]
  rfl

theorem firstFlag_map_outline (blocks : List ContainerRecord) :
    firstFlag (blocks.map outline) = firstFlag blocks := by
  funext hash
  rw [firstFlag, firstFlag, findHash_map_outline, Option.map_map]
  rfl

theorem markFirst_map_outline (hash : String) (blocks : List ContainerRecord) :
    markFirst hash (blocks.map outline) = (markFirst hash blocks).map outline := by
  induction blocks with
  | nil => rfl
  | cons block blocks ih =>
    have houtline : (outline block).hash = block.hash := rfl
    rw [List.map_cons, markFirst, markFirst, ih, houtline]
    split <;> rfl

theorem markAll_map_outline (hashes : List String) (blocks : List ContainerRecord) :
    markAll hashes (blocks.map outline) = (markAll hashes blocks).map outline := by
  induction hashes generalizing blocks with
  | nil => rfl
  | cons hash hashes ih =>
    show markAll hashes (markFirst hash (blocks.map outline)) = _
    rw [markFirst_map_outline, ih]
    rfl

theorem markFirst_eq_self (h : findHash hash blocks = none) : markFirst hash blocks = blocks := by
  induction blocks with
  | nil => rfl
  | cons block blocks ih =>
    have hnone := List.find?_eq_none.mp h
    have hne : block.hash ≠ hash := by simpa using hnone block List.mem_cons_self
    rw [markFirst, if_neg hne, ih]
    exact List.find?_eq_none.mpr fun b hb => hnone b (List.mem_cons_of_mem _ hb)

theorem findHash_markFirst (hash hash' : String) (blocks : List ContainerRecord) :
    findHash hash (markFirst hash' blocks) = (findHash hash blocks).map fun t =>
      if hash = hash' then { t with deleted := true } else t := by
  induction blocks with
  | nil => rfl
  | cons block blocks ih =>
    unfold markFirst
    by_cases hblock : block.hash = hash'
    · rw [if_pos hblock]
      by_cases hsame : hash = hash'
      · rw [findHash, List.find?_cons_of_pos (by simp [hblock, hsame]), findHash,
          List.find?_cons_of_pos (by simp [hblock, hsame])]
        simp [hsame]
      · rw [findHash, List.find?_cons_of_neg (by simp [hblock, Ne.symm hsame]), findHash,
          List.find?_cons_of_neg (by simp [hblock, Ne.symm hsame])]
        simp [hsame]
    · rw [if_neg hblock]
      by_cases hfound : block.hash = hash
      · have hne : hash ≠ hash' := fun h => hblock (hfound.trans h)
        rw [findHash, List.find?_cons_of_pos (by simp [hfound]), findHash,
          List.find?_cons_of_pos (by simp [hfound])]
        simp [hne]
      · rw [findHash, List.find?_cons_of_neg (by simp [hfound]), findHash,
          List.find?_cons_of_neg (by simp [hfound])]
        exact ih

theorem markFirst_append (hash : String) (blocks rest : List ContainerRecord) :
    markFirst hash (blocks ++ rest) =
      if findHash hash blocks = none then blocks ++ markFirst hash rest
      else markFirst hash blocks ++ rest := by
  induction blocks with
  | nil => rfl
  | cons block blocks ih =>
    rw [List.cons_append, markFirst, markFirst]
    by_cases hhash : block.hash = hash
    · have hfind : findHash hash (block :: blocks) = some block :=
        List.find?_cons_of_pos (by simp [hhash])
      rw [if_pos hhash, if_pos hhash, hfind, if_neg (Option.some_ne_none block)]
      rfl
    · have hfind : findHash hash (block :: blocks) = findHash hash blocks :=
        List.find?_cons_of_neg (by simp [hhash])
      rw [if_neg hhash, if_neg hhash, hfind, ih]
      split <;> rfl

/-- A deletion marks a block in the first part that has one of the container. -/
theorem markAll_append (hashes : List String) (blocks rest : List ContainerRecord) :
    markAll hashes (blocks ++ rest) = markAll hashes blocks ++
      markAll (hashes.filter fun hash => (findHash hash blocks).isNone) rest := by
  induction hashes generalizing blocks rest with
  | nil => rfl
  | cons hash hashes ih =>
    have hsame : ∀ hash', (findHash hash' (markFirst hash blocks)).isNone =
        (findHash hash' blocks).isNone := by
      intro hash'
      rw [findHash_markFirst, Option.isNone_map]
    show markAll hashes (markFirst hash (blocks ++ rest)) = _
    rw [markFirst_append]
    split
    next hnone =>
      rw [ih, List.filter_cons_of_pos (by simp [hnone])]
      show _ = markAll hashes (markFirst hash blocks) ++ _
      rw [markFirst_eq_self hnone]
      rfl
    next hsome =>
      rw [ih, List.filter_cons_of_neg (by simpa [Option.isNone_iff_eq_none] using hsome)]
      simp only [hsame]
      rfl

theorem length_markAll (hashes : List String) (blocks : List ContainerRecord) :
    (markAll hashes blocks).length = blocks.length := by
  have hone : ∀ hash (blocks : List ContainerRecord),
      (markFirst hash blocks).length = blocks.length := by
    intro hash blocks
    induction blocks with
    | nil => rfl
    | cons block blocks ih =>
      rw [markFirst]
      split
      · rfl
      · rw [List.length_cons, ih, List.length_cons]
  induction hashes generalizing blocks with
  | nil => rfl
  | cons hash hashes ih => exact (ih (markFirst hash blocks)).trans (hone hash blocks)

/-! ### The records that are left -/

theorem unplaced_nil (records : List ContainerRecord) :
    unplaced (fun _ => []) records = records := by
  induction records with
  | nil => rfl
  | cons r records ih =>
    rw [unplaced, if_pos rfl, ih]
    split
    · rfl
    · exact if_pos rfl

/-- What the first parts leave goes on to the others. -/
theorem unplaced_append {first second : String → List Bool}
    (hone : ∀ hash, (first hash).length ≤ 1) (records : List ContainerRecord) :
    unplaced second (unplaced first records) =
      unplaced (fun hash => first hash ++ second hash) records := by
  induction records generalizing first second with
  | nil => rfl
  | cons r records ih =>
    obtain hnil | ⟨flag, hflag⟩ : first r.hash = [] ∨ ∃ flag, first r.hash = [flag] := by
      have hlength := hone r.hash
      cases hfirst : first r.hash with
      | nil => exact .inl rfl
      | cons flag flags =>
        rw [hfirst, List.length_cons] at hlength
        obtain rfl : flags = [] := List.eq_nil_of_length_eq_zero (by omega)
        exact .inr ⟨flag, rfl⟩
    · -- the first parts do not have the container
      cases hdeleted : r.deleted with
      | false =>
        simp only [unplaced, hdeleted, hnil, List.all_nil, Bool.false_eq_true, if_false, if_true,
          List.nil_append, ih hone]
      | true =>
        simp only [unplaced, hdeleted, hnil, if_true, List.nil_append]
        split
        · rw [ih hone]
        · rw [ih hone]
          congr 1
          funext hash
          by_cases hsame : hash = r.hash
          · simp [hsame, hnil]
          · simp [Function.update_of_ne hsame]
    · cases hdeleted : r.deleted with
      | false =>
        cases flag with
        | false =>
          simp [unplaced, hdeleted, hflag, ih hone]
        | true =>
          simp [unplaced, hdeleted, hflag, ih hone]
      | true =>
        simp only [unplaced, hdeleted, hflag, if_true, List.cons_ne_nil, if_false,
          List.cons_append, List.nil_append, List.set_cons_zero]
        rw [ih fun hash => ?_]
        · congr 1
          funext hash
          by_cases hsame : hash = r.hash
          · simp [hsame]
          · simp [Function.update_of_ne hsame]
        · by_cases hsame : hash = r.hash
          · simp [hsame]
          · rw [Function.update_of_ne hsame]
            exact hone hash

theorem deletions_cons (r : ContainerRecord) (records : List ContainerRecord) :
    deletions (r :: records) =
      if r.deleted then r.hash :: deletions records else deletions records := by
  unfold deletions
  cases hdeleted : r.deleted with
  | false => simp [hdeleted]
  | true => simp [hdeleted]

theorem deletions_unplaced (flags : String → List Bool) (records : List ContainerRecord) :
    deletions (unplaced flags records) =
      (deletions records).filter fun hash => (flags hash).isEmpty := by
  induction records generalizing flags with
  | nil => rfl
  | cons r records ih =>
    cases hdeleted : r.deleted with
    | false =>
      have hrest : deletions (r :: records) = deletions records := by
        rw [deletions_cons, hdeleted]
        rfl
      rw [unplaced, hdeleted, hrest]
      simp only [Bool.false_eq_true, if_false]
      split
      · rw [deletions_cons, hdeleted]
        exact ih flags
      · exact ih flags
    | true =>
      have hrest : deletions (r :: records) = r.hash :: deletions records := by
        rw [deletions_cons, hdeleted]
        rfl
      rw [unplaced, hdeleted, hrest]
      simp only [if_true]
      split
      next hnil =>
        rw [deletions_cons, hdeleted, ih, List.filter_cons_of_pos (by simp [hnil])]
        rfl
      next hne =>
        rw [ih, List.filter_cons_of_neg (by simpa using hne)]
        congr 1
        funext hash
        by_cases hsame : hash = r.hash
        · rw [hsame, Function.update_self]
          cases hflags : flags r.hash with
          | nil => exact absurd hflags hne
          | cons flag rest => rfl
        · rw [Function.update_of_ne hsame]

/-! ### Updates of blocks -/

theorem updateFirst_outline {source : ContainerRecord}
    (h : updateFirst source blocks = some blocks') :
    blocks'.map outline =
      (if source.deleted then markFirst source.hash blocks else blocks).map outline := by
  induction blocks generalizing blocks' with
  | nil => cases h
  | cons target blocks ih =>
    rw [updateFirst] at h
    rw [markFirst]
    split at h
    next hhash =>
      obtain ⟨target', htarget, rfl⟩ := Option.map_eq_some_iff.mp h
      rw [if_pos hhash]
      unfold updateRecord at htarget
      split at htarget
      · cases htarget
      next haccepts =>
        obtain rfl := Option.some.inj htarget
        cases hdeleted : source.deleted with
        | false =>
          have hlive : target.deleted = false := by simpa [hdeleted] using haccepts
          simp [outline, hlive]
        | true => simp [outline]
    next hhash =>
      obtain ⟨rest, hrest, rfl⟩ := Option.map_eq_some_iff.mp h
      rw [if_neg hhash, List.map_cons, ih hrest]
      split <;> rfl

theorem firstFlag_of_outline (h : blocks'.map outline = blocks.map outline) :
    firstFlag blocks' = firstFlag blocks := by
  rw [← firstFlag_map_outline, h, firstFlag_map_outline]

theorem firstFlag_markFirst (hash : String) (blocks : List ContainerRecord) :
    firstFlag (markFirst hash blocks) =
      Function.update (firstFlag blocks) hash ((firstFlag blocks hash).set 0 true) := by
  funext hash'
  rw [firstFlag, findHash_markFirst]
  by_cases hsame : hash' = hash
  · rw [hsame, Function.update_self, firstFlag]
    cases findHash hash blocks <;> simp
  · rw [Function.update_of_ne hsame, firstFlag]
    simp [hsame]

theorem updateBlocks_eq (blocks records : List ContainerRecord) :
    (updateBlocks blocks records).2 = unplaced (firstFlag blocks) records ∧
      (updateBlocks blocks records).1.map outline =
        (markAll (deletions records) blocks).map outline := by
  induction records generalizing blocks with
  | nil => exact ⟨rfl, rfl⟩
  | cons source records ih =>
    rw [updateBlocks, deletions_cons, unplaced]
    cases hfirst : updateFirst source blocks with
    | none =>
      have hrefused : ∀ t, findHash source.hash blocks = some t → ¬ Accepts source t :=
        fun t ht => updateFirst_eq_none hfirst ht
      obtain ⟨hleft, hblocks⟩ := ih blocks
      cases hdeleted : source.deleted with
      | false =>
        have hall : (firstFlag blocks source.hash).all id = true := by
          unfold firstFlag
          cases hfind : findHash source.hash blocks with
          | none => rfl
          | some t =>
            have hnot := hrefused t hfind
            simp only [Accepts, hdeleted, Bool.false_eq_true, false_or,
              Bool.not_eq_false] at hnot
            simp [hnot]
        simp only [Bool.false_eq_true, if_false, hall, if_true]
        exact ⟨by rw [hleft], hblocks⟩
      | true =>
        have hnone : findHash source.hash blocks = none := by
          cases hfind : findHash source.hash blocks with
          | none => rfl
          | some t => exact absurd (.inl hdeleted) (hrefused t hfind)
        have hnil : firstFlag blocks source.hash = [] := by
          rw [firstFlag, hnone]
          rfl
        simp only [if_true, hnil]
        refine ⟨by rw [hleft], ?_⟩
        show _ = (markAll (deletions records) (markFirst source.hash blocks)).map outline
        rw [markFirst_eq_self hnone]
        exact hblocks
    | some blocks₁ =>
      obtain ⟨⟨t, -, ht, haccepts, -⟩, -⟩ := updateFirst_eq_some hfirst
      have houtline := updateFirst_outline hfirst
      obtain ⟨hleft, hblocks⟩ := ih blocks₁
      have hflag : firstFlag blocks source.hash = [t.deleted] := by
        rw [firstFlag, ht]
        rfl
      cases hdeleted : source.deleted with
      | false =>
        rw [hdeleted, if_neg Bool.false_ne_true] at houtline
        have hlive : t.deleted = false := by
          rcases haccepts with hd | hd
          · rw [hdeleted] at hd
            cases hd
          · exact hd
        have hsame := firstFlag_of_outline houtline
        simp only [Bool.false_eq_true, if_false, hflag, hlive, List.all_cons, id,
          Bool.false_and]
        refine ⟨by rw [hleft, hsame], ?_⟩
        rw [hblocks, ← markAll_map_outline, houtline, markAll_map_outline]
      | true =>
        rw [hdeleted, if_pos rfl] at houtline
        have hmarked : firstFlag blocks₁ =
            Function.update (firstFlag blocks) source.hash
              ((firstFlag blocks source.hash).set 0 true) := by
          rw [firstFlag_of_outline houtline, firstFlag_markFirst]
        simp only [if_true]
        rw [if_neg (by simp [hflag])]
        refine ⟨by rw [hleft, hmarked], ?_⟩
        rw [hblocks, ← markAll_map_outline, houtline, markAll_map_outline]
        rfl

theorem length_firstFlag (blocks : List ContainerRecord) (hash : String) :
    (firstFlag blocks hash).length ≤ 1 := by
  unfold firstFlag
  cases findHash hash blocks <;> simp

theorem isEmpty_firstFlag (blocks : List ContainerRecord) (hash : String) :
    (firstFlag blocks hash).isEmpty = (findHash hash blocks).isNone := by
  unfold firstFlag
  cases findHash hash blocks <;> rfl

theorem updateSorted_eq {limit : Nat} (hlimit : 0 < limit) {fuel : Nat} (start : Nat)
    {blocks : List ContainerRecord} (hfuel : blocks.length ≤ fuel)
    (records : List ContainerRecord) :
    (updateSorted limit fuel start blocks records).records =
        unplaced (firstFlags (pieces limit fuel blocks)) records ∧
      (updateSorted limit fuel start blocks records).blocks.map outline =
        (markAll (deletions records) blocks).map outline := by
  have hnil : ∀ hashes, markAll hashes [] = [] := fun hashes =>
    List.eq_nil_of_length_eq_zero (length_markAll hashes [])
  induction fuel generalizing start blocks records with
  | zero =>
    obtain rfl := List.eq_nil_of_length_eq_zero (Nat.le_zero.mp hfuel)
    exact ⟨(unplaced_nil records).symm, by rw [hnil]; rfl⟩
  | succ fuel ih =>
    rw [updateSorted, pieces]
    split
    next hempty =>
      rw [hempty, hnil]
      exact ⟨(unplaced_nil records).symm, rfl⟩
    next hne =>
      have hshort : (blocks.drop limit).length ≤ fuel := by
        have hpos := List.length_pos_iff.mpr hne
        rw [List.length_drop]
        omega
      obtain ⟨hleft, hblocks⟩ := updateBlocks_eq (blocks.take limit) records
      obtain ⟨hleft', hblocks'⟩ := ih (start + (blocks.take limit).length) hshort
        (updateBlocks (blocks.take limit) records).2
      constructor
      · show (updateSorted limit fuel _ _ _).records = _
        rw [hleft', hleft, unplaced_append (length_firstFlag _)]
        rfl
      · show ((updateBlocks (blocks.take limit) records).1 ++
          (updateSorted limit fuel _ _ _).blocks).map outline = _
        rw [List.map_append, hblocks, hblocks', hleft, deletions_unplaced, ← List.map_append]
        simp only [isEmpty_firstFlag]
        rw [← markAll_append, List.take_append_drop]

/-! ### Updates of files -/

theorem updateExisting_added (file : AccountFile) (records : List ContainerRecord) :
    (file.updateExisting records).2 = file.addedContainers records := by
  obtain ⟨hunsorted, -⟩ := updateBlocks_eq file.unsorted.reverse records
  obtain ⟨hsorted, -⟩ := updateSorted_eq (show 0 < maxReadNonStaticRecord by decide) 0
    (List.length_take_le file.trailer.sortedRecord file.blocks)
    (updateBlocks file.unsorted.reverse records).2
  show (updateSorted maxReadNonStaticRecord file.trailer.sortedRecord 0 file.sorted
    (updateBlocks file.unsorted.reverse records).2).records.filter _ = _
  rw [AccountFile.sorted, hsorted, hunsorted, unplaced_append (length_firstFlag _)]
  rfl

theorem updateExisting_outline (file : AccountFile) (records : List ContainerRecord) :
    (file.updateExisting records).1.blocks.map outline =
      (file.deleting records).blocks.map outline := by
  obtain ⟨hleft, hunsorted⟩ := updateBlocks_eq file.unsorted.reverse records
  obtain ⟨-, hsorted⟩ := updateSorted_eq (show 0 < maxReadNonStaticRecord by decide) 0
    (List.length_take_le file.trailer.sortedRecord file.blocks)
    (updateBlocks file.unsorted.reverse records).2
  have hlength : (markAll (deletions records) file.unsorted.reverse).length =
      file.unsorted.length := by
    rw [length_markAll, List.length_reverse]
  show ((updateSorted maxReadNonStaticRecord file.trailer.sortedRecord 0 file.sorted
      (updateBlocks file.unsorted.reverse records).2).blocks ++
        (updateBlocks file.unsorted.reverse records).1.reverse).map outline =
    ((markAll (deletions records) (file.unsorted.reverse ++ file.sorted)).drop
        file.unsorted.length ++
      ((markAll (deletions records) (file.unsorted.reverse ++ file.sorted)).take
        file.unsorted.length).reverse).map outline
  rw [markAll_append, List.drop_left' hlength, List.take_left' hlength, List.map_append,
    List.map_append, List.map_reverse, List.map_reverse, hunsorted]
  congr 1
  rw [AccountFile.sorted, hsorted, hleft, deletions_unplaced]
  simp only [isEmpty_firstFlag]

theorem compacted_map_outline (file : AccountFile) :
    compacted { file with blocks := file.blocks.map outline } = file.compacted.map outline := by
  have hname : ∀ r : ContainerRecord, (outline r).name = r.name := fun _ => rfl
  have hsorted : sorted { file with blocks := file.blocks.map outline } =
      file.sorted.map outline := List.map_take.symm
  have hunsorted : unsorted { file with blocks := file.blocks.map outline } =
      file.unsorted.map outline := by
    simp only [unsorted, List.map_take, List.map_drop]
  have hiterators : [file.sorted.map outline, (sortedMap (·.name) file.unsorted).map outline] =
      [file.sorted, sortedMap (·.name) file.unsorted].map (List.map outline) := rfl
  rw [compacted, compacted, hsorted, hunsorted, sortedMap_map hname, hiterators,
    InfoFileSorter.records_map hname, List.filter_map]
  rfl

theorem length_compacted_updateExisting (file : AccountFile) (records : List ContainerRecord) :
    (file.updateExisting records).1.compacted.length =
      (file.deleting records).compacted.length := by
  have houtlines := updateExisting_outline file records
  have hupdated := congrArg List.length (compacted_map_outline (file.updateExisting records).1)
  have hdeleting := congrArg List.length (compacted_map_outline (file.deleting records))
  rw [List.length_map] at hupdated hdeleting
  rw [← hupdated, ← hdeleting, compacted, compacted, sorted, sorted, unsorted, unsorted]
  simp only [houtlines]
  rfl

theorem prepareAppend_trailer_updateExisting (file : AccountFile)
    (records : List ContainerRecord) : (file.updateExisting records).1.prepareAppend.trailer =
      (file.deleting records).prepareAppend.trailer := by
  have hcount := length_compacted_updateExisting file records
  unfold prepareAppend
  have htrailer : (file.updateExisting records).1.trailer = file.trailer := rfl
  have htrailer' : (file.deleting records).trailer = file.trailer := rfl
  rw [htrailer, htrailer']
  split
  · rw [compaction, compaction, htrailer, htrailer', hcount]
  · rfl

end AccountFile

end ObjectStorage.AccountInfo
