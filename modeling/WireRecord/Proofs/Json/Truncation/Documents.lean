/-
Documents read from texts that are cut off.

From the tokens of a text that is cut off, a document is read that is the whole document as far as it goes
(`Document.Cut`): it has some of the items or entries, of which the last may be cut itself or missing, and
its ending says that the text has ended. The main result, `readText_of_isPrefix`, says so of the text of
any object; an object that is cut off anywhere never has its end.

The induction is on the whole document, with one lemma for each of its kinds and one for each place where
a list of items or entries can be cut. Each takes what is known of the parts as a hypothesis, and holds
inside any open containers, because the readers of all of them stop where the text does.
-/
import WireRecord.Proofs.Json.Parsing
import WireRecord.Proofs.Json.Truncation.Tokens

set_option autoImplicit false

namespace WireRecord.Json

/-! ## Documents that are cut off -/

mutual

/-- What may be left of a document that is cut off, which includes all of it and nothing. -/
inductive Document.Cut : Document → Document → Prop
  | whole (d : Document) : Document.Cut d d
  | missing (d : Document) : Document.Cut (.broken (.both .ended)) d
  | number (e whole : Extent) :
    Document.Cut (.number (some (.natural e))) (.number (some (.natural whole)))
  | array {left items : List Document} (h : ItemsCut left items) :
    Document.Cut (.array left (.cut (.both .ended))) (.array items .closed)
  | object {left entries : List Entry} (h : EntriesCut left entries) :
    Document.Cut (.object left (.cut (.both .ended))) (.object entries .closed)

/-- What may be left of items: those up to some place, and perhaps a part of the next. -/
inductive ItemsCut : List Document → List Document → Prop
  | between (before after : List Document) : ItemsCut before (before ++ after)
  | inside (before after : List Document) {left d : Document} (h : Document.Cut left d) :
    ItemsCut (before ++ [left]) (before ++ d :: after)

/-- What may be left of entries. A key that is cut off leaves nothing of its entry. -/
inductive EntriesCut : List Entry → List Entry → Prop
  | between (before after : List Entry) : EntriesCut before (before ++ after)
  | inside (before after : List Entry) (key : Option String) {left d : Document}
    (h : Document.Cut left d) : EntriesCut (before ++ [(key, left)]) (before ++ (key, d) :: after)

end

theorem ItemsCut.cons {left items : List Document} (d : Document) (h : ItemsCut left items) :
    ItemsCut (d :: left) (d :: items) := by
  cases h with
  | between _ after => exact .between (d :: left) after
  | inside before after h => exact .inside (d :: before) after h

theorem EntriesCut.cons {left entries : List Entry} (e : Entry) (h : EntriesCut left entries) :
    EntriesCut (e :: left) (e :: entries) := by
  cases h with
  | between _ after => exact .between (e :: left) after
  | inside before after key h => exact .inside (e :: before) after key h

/-! ## Reading tokens that are cut off -/

/-- Whether a document can be read as far as its tokens go. -/
def Document.CutReads (d : Document) : Prop :=
  ∀ ts, CutTokens ts d.tokens → ∀ outer, ∃ left, left.Cut d ∧
    (Reader.value outer).run ts = (Reader.unwind (.both .ended) left outer, [])

/-- Whether items behind the first can be read as far as their tokens go. -/
def ItemsCutReads (items : List Document) : Prop :=
  ∀ ts, CutTokens ts ((itemTokens items).flatMap (.mark .comma :: ·)) → ∀ before outer,
    ∃ left, ItemsCut left items ∧ (Reader.afterItem before outer).run ts =
      (Reader.unwind (.both .ended) (.array (before.reverse ++ left) (.cut (.both .ended))) outer, [])

/-- Whether the items of an array that has been opened can be read as far as their tokens go. -/
def OpenItemsCutReads (items : List Document) : Prop :=
  ∀ ts, CutTokens ts ([.mark .comma].intercalate (itemTokens items)) → ∀ outer,
    ∃ left, ItemsCut left items ∧ (Reader.firstItem outer).run ts =
      (Reader.unwind (.both .ended) (.array left (.cut (.both .ended))) outer, [])

/-- Whether entries behind the first can be read as far as their tokens go. -/
def EntriesCutReads (entries : List Entry) : Prop :=
  ∀ ts, CutTokens ts ((entryTokens entries).flatMap (.mark .comma :: ·)) → ∀ before outer,
    ∃ left, EntriesCut left entries ∧ (Reader.afterEntry before outer).run ts =
      (Reader.unwind (.both .ended) (.object (before.reverse ++ left) (.cut (.both .ended))) outer, [])

/-- Whether the entries of an object that has been opened can be read as far as their tokens go. -/
def OpenEntriesCutReads (entries : List Entry) : Prop :=
  ∀ ts, CutTokens ts ([.mark .comma].intercalate (entryTokens entries)) → ∀ outer,
    ∃ left, EntriesCut left entries ∧ (Reader.firstKey outer).run ts =
      (Reader.unwind (.both .ended) (.object left (.cut (.both .ended))) outer, [])

namespace Reader

/-- The text ends behind a document, inside the open containers. -/
theorem complete_run_nil (d : Document) (outer : List Frame) :
    (complete d outer).run [] = (unwind (.both .ended) d outer, []) := by
  rcases outer with _ | ⟨_ | _, outer⟩ <;> rfl

/-- The text ends behind the tokens of a document. -/
theorem run_whole {d : Document} (h : d.Whole) (outer : List Frame) :
    (Reader.value outer).run d.tokens = (unwind (.both .ended) d outer, []) := by
  have hrun := run_tokens h outer []
  rwa [List.append_nil, complete_run_nil] at hrun

/-- A document of a single token. -/
theorem cutReads_single {d : Document} (hwhole : d.Whole) {t : Token} (htokens : d.tokens = [t])
    (hcut : ∀ u, u.Cut t → ∃ left, left.Cut d ∧
      ∀ outer, (Reader.value outer).run [u] = (unwind (.both .ended) left outer, [])) :
    d.CutReads := by
  intro ts h outer
  by_cases hall : ts = d.tokens
  · rw [hall]
    exact ⟨d, .whole d, run_whole hwhole outer⟩
  rw [htokens] at h hall
  cases h with
  | between => exact ⟨_, .missing d, rfl⟩
  | inside h =>
    obtain ⟨left, hleft, hrun⟩ := hcut _ h
    exact ⟨left, hleft, hrun outer⟩
  | cons _ h =>
    cases h
    exact absurd rfl hall

/-! ### Arrays -/

theorem itemsCutReads_nil : ItemsCutReads [] := by
  intro ts h before outer
  cases h
  refine ⟨[], .between [] [], ?_⟩
  rw [List.append_nil]
  rfl

/-- Where an item is due, there may be all of it or a part. -/
theorem run_item_cut {d : Document} {ds : List Document} (hwhole : d.Whole) (hd : d.CutReads)
    (hds : ItemsCutReads ds) {ts : List Token}
    (h : CutTokens ts (d.tokens ++ (itemTokens ds).flatMap (.mark .comma :: ·)))
    (before : List Document) (outer : List Frame) :
    ∃ left, ItemsCut left (d :: ds) ∧ (Reader.value (.array before :: outer)).run ts =
      (unwind (.both .ended) (.array (before.reverse ++ left) (.cut (.both .ended))) outer, []) := by
  -- the cut is inside the item, or behind it
  rcases h.append_cases with hinside | ⟨rest, rfl, hrest⟩
  · obtain ⟨left, hleft, hrun⟩ := hd ts hinside (.array before :: outer)
    refine ⟨[left], .inside [] ds hleft, ?_⟩
    rw [hrun, unwind, List.reverse_cons]
  · obtain ⟨left, hleft, hrun⟩ := hds rest hrest (d :: before) outer
    refine ⟨d :: left, hleft.cons d, ?_⟩
    rw [run_tokens hwhole, complete, hrun, List.reverse_cons, List.append_assoc, List.singleton_append]

theorem itemsCutReads_cons {d : Document} {ds : List Document} (hwhole : d.Whole) (hd : d.CutReads)
    (hds : ItemsCutReads ds) : ItemsCutReads (d :: ds) := by
  intro ts h before outer
  rw [itemTokens, List.flatMap_cons, List.cons_append] at h
  rcases h.mark_cons with rfl | ⟨rest, rfl, hrest⟩
  · refine ⟨[], .between [] (d :: ds), ?_⟩
    rw [List.append_nil]
    rfl
  · exact run_item_cut hwhole hd hds hrest before outer

/-- A token that begins a document, or is left of one, does not end an array. -/
theorem ne_arrayClose_of_cutTokens {d : Document} {t : Token} {ts rest : List Token}
    (h : CutTokens (t :: ts) (d.tokens ++ rest)) : t ≠ .mark .arrayClose := by
  rintro rfl
  cases d <;> cases h <;> rename_i hcut <;> cases hcut

/-- Where an array may end, another token is taken as the beginning of an item. -/
theorem run_firstItem_cons {t : Token} (h : t ≠ .mark .arrayClose) (ts : List Token)
    (outer : List Frame) :
    (Reader.firstItem outer).run (t :: ts) = (Reader.value (.array [] :: outer)).run (t :: ts) := by
  rcases t with m | _ | _ | _ | _ | _ | _
  · cases m
    case arrayClose => exact absurd rfl h
    all_goals rfl
  all_goals rfl

theorem openItemsCutReads_nil : OpenItemsCutReads [] := by
  intro ts h outer
  cases h
  exact ⟨[], .between [] [], rfl⟩

theorem openItemsCutReads_cons {d : Document} {ds : List Document} (hwhole : d.Whole) (hd : d.CutReads)
    (hds : ItemsCutReads ds) : OpenItemsCutReads (d :: ds) := by
  intro ts h outer
  -- without any token the array breaks off empty, and not at a missing item
  rcases ts with _ | ⟨t, ts⟩
  · exact ⟨[], .between [] (d :: ds), rfl⟩
  rw [itemTokens, intercalate_cons] at h
  rw [run_firstItem_cons (ne_arrayClose_of_cutTokens h)]
  exact run_item_cut hwhole hd hds h [] outer

theorem cutReads_array {items : List Document} (hwhole : WholeItems items)
    (hitems : OpenItemsCutReads items) : (Document.array items .closed).CutReads := by
  intro ts h outer
  rcases h.mark_cons with rfl | ⟨rest, rfl, hrest⟩
  · exact ⟨_, .missing _, rfl⟩
  rcases hrest.append_mark with hcut | rfl
  · obtain ⟨left, hleft, hrun⟩ := hitems rest hcut outer
    exact ⟨_, .array hleft, hrun⟩
  · have hdocument : (Document.array items .closed).Whole := ⟨hwhole, rfl⟩
    exact ⟨_, .whole _, run_whole hdocument outer⟩

/-! ### Objects -/

theorem entriesCutReads_nil : EntriesCutReads [] := by
  intro ts h before outer
  cases h
  refine ⟨[], .between [] [], ?_⟩
  rw [List.append_nil]
  rfl

/-- Where a key is due, there may be a whole entry or a part. -/
theorem run_entry_cut {key : Option String} {d : Document} {entries : List Entry} (hwhole : d.Whole)
    (hd : d.CutReads) (hentries : EntriesCutReads entries) {ts : List Token}
    (h : CutTokens ts ((.string key :: .mark .colon :: d.tokens) ++
      (entryTokens entries).flatMap (.mark .comma :: ·)))
    (before : List Entry) (outer : List Frame) :
    ∃ left, EntriesCut left ((key, d) :: entries) ∧ (Reader.nextKey before outer).run ts =
      (unwind (.both .ended) (.object (before.reverse ++ left) (.cut (.both .ended))) outer, []) := by
  have hnone : EntriesCut [] ((key, d) :: entries) := .between [] _
  cases h with
  | between =>
    refine ⟨[], hnone, ?_⟩
    rw [List.append_nil]
    rfl
  | inside hkey =>
    -- of a key that is cut off nothing is kept
    cases hkey
    refine ⟨[], hnone, ?_⟩
    rw [List.append_nil]
    rfl
  | cons _ h =>
    rcases h.mark_cons with rfl | ⟨rest, rfl, hrest⟩
    · refine ⟨[(key, .broken (.both .ended))], .inside [] entries key (.missing d), ?_⟩
      rw [← List.reverse_cons]
      rfl
    have hvalue : (Reader.nextKey before outer).run (.string key :: .mark .colon :: rest) =
        (Reader.value (.object before key :: outer)).run rest := rfl
    rw [hvalue]
    rcases hrest.append_cases with hinside | ⟨more, rfl, hmore⟩
    · obtain ⟨left, hleft, hrun⟩ := hd rest hinside (.object before key :: outer)
      refine ⟨[(key, left)], .inside [] entries key hleft, ?_⟩
      rw [hrun, unwind, List.reverse_cons]
    · obtain ⟨left, hleft, hrun⟩ := hentries more hmore ((key, d) :: before) outer
      refine ⟨(key, d) :: left, hleft.cons (key, d), ?_⟩
      rw [run_tokens hwhole, complete, hrun, List.reverse_cons, List.append_assoc,
        List.singleton_append]

theorem entriesCutReads_cons {key : Option String} {d : Document} {entries : List Entry}
    (hwhole : d.Whole) (hd : d.CutReads) (hentries : EntriesCutReads entries) :
    EntriesCutReads ((key, d) :: entries) := by
  intro ts h before outer
  rw [entryTokens, List.flatMap_cons, List.cons_append] at h
  rcases h.mark_cons with rfl | ⟨rest, rfl, hrest⟩
  · refine ⟨[], .between [] ((key, d) :: entries), ?_⟩
    rw [List.append_nil]
    rfl
  · exact run_entry_cut hwhole hd hentries hrest before outer

/-- Where an object may end, a key or what is left of one is taken as any other. -/
theorem run_firstKey_cut {key : Option String} {ts us : List Token}
    (h : CutTokens ts (.string key :: us)) (outer : List Frame) :
    (Reader.firstKey outer).run ts = (Reader.nextKey [] outer).run ts := by
  cases h with
  | between => rfl
  | inside hkey =>
    cases hkey
    rfl
  | cons => rfl

theorem openEntriesCutReads_nil : OpenEntriesCutReads [] := by
  intro ts h outer
  cases h
  exact ⟨[], .between [] [], rfl⟩

theorem openEntriesCutReads_cons {key : Option String} {d : Document} {entries : List Entry}
    (hwhole : d.Whole) (hd : d.CutReads) (hentries : EntriesCutReads entries) :
    OpenEntriesCutReads ((key, d) :: entries) := by
  intro ts h outer
  rw [entryTokens, intercalate_cons] at h
  rw [run_firstKey_cut h]
  exact run_entry_cut hwhole hd hentries h [] outer

theorem cutReads_object {entries : List Entry} (hwhole : WholeEntries entries)
    (hentries : OpenEntriesCutReads entries) : (Document.object entries .closed).CutReads := by
  intro ts h outer
  rcases h.mark_cons with rfl | ⟨rest, rfl, hrest⟩
  · exact ⟨_, .missing _, rfl⟩
  rcases hrest.append_mark with hcut | rfl
  · obtain ⟨left, hleft, hrun⟩ := hentries rest hcut outer
    exact ⟨_, .object hleft, hrun⟩
  · have hdocument : (Document.object entries .closed).Whole := ⟨hwhole, rfl⟩
    exact ⟨_, .whole _, run_whole hdocument outer⟩

end Reader

mutual

/-- **A document is read as far as its tokens go**, inside any open containers. -/
theorem cutReads : ∀ {d : Document}, d.Whole → d.CutReads
  | .null, h => by
    refine Reader.cutReads_single h rfl fun u hu => ?_
    cases hu
    exact ⟨_, .missing _, fun _ => rfl⟩
  | .bool _, h => by
    refine Reader.cutReads_single h rfl fun u hu => ?_
    cases hu
    exact ⟨_, .missing _, fun _ => rfl⟩
  | .string _, h => by
    refine Reader.cutReads_single h rfl fun u hu => ?_
    cases hu
    exact ⟨_, .missing _, fun _ => rfl⟩
  | .number _, h => by
    refine Reader.cutReads_single h rfl fun u hu => ?_
    cases hu with
    | number e whole =>
      exact ⟨_, .number e whole, Reader.complete_run_nil (.number (some (.natural e)))⟩
  | .array _ _, h => by
    obtain ⟨hitems, rfl⟩ := h
    exact Reader.cutReads_array hitems (openItemsCutReads hitems)
  | .object _ _, h => by
    obtain ⟨hentries, rfl⟩ := h
    exact Reader.cutReads_object hentries (openEntriesCutReads hentries)

theorem openItemsCutReads : ∀ {items : List Document}, WholeItems items → OpenItemsCutReads items
  | [], _ => Reader.openItemsCutReads_nil
  | _ :: _, h => Reader.openItemsCutReads_cons h.1 (cutReads h.1) (itemsCutReads h.2)

theorem itemsCutReads : ∀ {items : List Document}, WholeItems items → ItemsCutReads items
  | [], _ => Reader.itemsCutReads_nil
  | _ :: _, h => Reader.itemsCutReads_cons h.1 (cutReads h.1) (itemsCutReads h.2)

theorem openEntriesCutReads : ∀ {entries : List Entry}, WholeEntries entries →
    OpenEntriesCutReads entries
  | [], _ => Reader.openEntriesCutReads_nil
  | (_, _) :: _, h => Reader.openEntriesCutReads_cons h.1 (cutReads h.1) (entriesCutReads h.2)

theorem entriesCutReads : ∀ {entries : List Entry}, WholeEntries entries → EntriesCutReads entries
  | [], _ => Reader.entriesCutReads_nil
  | (_, _) :: _, h => Reader.entriesCutReads_cons h.1 (cutReads h.1) (entriesCutReads h.2)

end

/-! ## Texts that are cut off -/

theorem countsOnly_mark (m : Mark) : (Token.mark m).CountsOnly := by
  intro n hn
  cases hn

theorem countsOnly_intercalate {tss : List (List Token)} (h : ∀ ts ∈ tss, ∀ t ∈ ts, t.CountsOnly)
    (m : Mark) : ∀ t ∈ [.mark m].intercalate tss, t.CountsOnly := by
  rcases tss with _ | ⟨first, rest⟩
  · intro t ht
    cases ht
  obtain ⟨hfirst, hrest⟩ := List.forall_mem_cons.mp h
  rw [intercalate_cons]
  refine List.forall_mem_append.mpr ⟨hfirst, fun t ht => ?_⟩
  obtain ⟨ts, hts, ht⟩ := List.mem_flatMap.mp ht
  exact List.forall_mem_cons.mpr ⟨countsOnly_mark m, hrest ts hts⟩ t ht

theorem countsOnly_bracketed {ts : List Token} (h : ∀ t ∈ ts, t.CountsOnly) {first last : Mark} :
    ∀ t ∈ .mark first :: (ts ++ [.mark last]), t.CountsOnly := by
  have hlast : ∀ t ∈ [Token.mark last], t.CountsOnly := by
    simpa using countsOnly_mark last
  exact List.forall_mem_cons.mpr ⟨countsOnly_mark first, List.forall_mem_append.mpr ⟨h, hlast⟩⟩

mutual

/-- The numbers in the tokens of a value are those in the value. -/
theorem countsOnly_tokens : ∀ {v : Value}, v.HasCounts → ∀ t ∈ v.parsed.tokens, t.CountsOnly
  | .null, _ | .bool _, _ | .string _, _ => by
    rintro t ht n rfl
    cases List.mem_singleton.mp ht
  | .number _, h => by
    obtain ⟨e, rfl⟩ := h
    rintro t ht n rfl
    cases List.mem_singleton.mp ht
    exact ⟨e, rfl⟩
  | .array _, h => countsOnly_bracketed (countsOnly_intercalate (countsOnly_itemTokens h) _)
  | .object _, h => countsOnly_bracketed (countsOnly_intercalate (countsOnly_entryTokens h) _)

theorem countsOnly_itemTokens : ∀ {items : List Value}, HasCountsInItems items →
    ∀ ts ∈ itemTokens (parsedItems items), ∀ t ∈ ts, t.CountsOnly
  | [], _ => by
    intro ts hts
    cases hts
  | _ :: _, h => List.forall_mem_cons.mpr ⟨countsOnly_tokens h.1, countsOnly_itemTokens h.2⟩

theorem countsOnly_entryTokens : ∀ {entries : List (String × Value)}, HasCountsInEntries entries →
    ∀ ts ∈ entryTokens (parsedEntries entries), ∀ t ∈ ts, t.CountsOnly
  | [], _ => by
    intro ts hts
    cases hts
  | (_, _) :: _, h => by
    refine List.forall_mem_cons.mpr ⟨?_, countsOnly_entryTokens h.2⟩
    have hvalue := List.forall_mem_cons.mpr ⟨countsOnly_mark .colon, countsOnly_tokens h.1⟩
    exact List.forall_mem_cons.mpr ⟨fun n hn => (by cases hn), hvalue⟩

end

/-- **A text of an object that is cut off** is read as what is left of the object: nothing, or some of its
entries without the end. -/
theorem readText_of_isPrefix {α : Type} (read : Document → Except Problem α)
    {entries : List (String × Value)} (hcounts : (Value.object entries).HasCounts) {p : String}
    (hp : p.toList <+: (Value.object entries).text.toList) (hne : p ≠ (Value.object entries).text) :
    readText read p = read (.broken (.both .ended)) ∨ ∃ left, EntriesCut left (parsedEntries entries) ∧
      readText read p = read (.object left (.cut (.both .ended))) := by
  have hinner := TokensText.intercalate_comma (tokensText_entryTexts hcounts)
  have htext : (Value.object entries).text.toList =
      ('\x7b' :: (",".intercalate (entryTexts entries)).toList) ++ ['\x7d'] := by
    rw [Value.text, String.toList_append, String.toList_append]
    rfl
  have hopen : p.toList <+: '\x7b' :: (",".intercalate (entryTexts entries)).toList := by
    rw [htext, List.prefix_concat_iff] at hp
    refine hp.resolve_left fun hall => hne ?_
    rw [← String.toList_inj, htext, hall]
  have hall : Parted ((.mark .objectOpen :: [.mark .comma].intercalate
      (entryTokens (parsedEntries entries))) ++ [.mark .objectClose]) :=
    parted_tokens (Value.object entries).parsed
  have hnumbers := List.forall_mem_cons.mpr
    ⟨countsOnly_mark .objectOpen, countsOnly_intercalate (countsOnly_entryTokens hcounts) .comma⟩
  have hcut := cutTokens_of_isPrefix ((TokenText.mark .objectOpen).tokensText.append hinner)
    (List.isChain_append.mp hall).1 hnumbers hopen
  rcases hcut.mark_cons with hnone | ⟨rest, htokens, hrest⟩
  · refine Or.inl (readText_eq read ?_)
    rw [hnone]
    rfl
  · obtain ⟨left, hleft, hrun⟩ := openEntriesCutReads (wholeEntries_parsed entries) rest hrest []
    refine Or.inr ⟨left, hleft, readText_eq read ?_⟩
    rw [htokens]
    exact hrun

end WireRecord.Json
