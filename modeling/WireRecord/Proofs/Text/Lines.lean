/-
Texts made of lines.

A generated text is a list of lines joined by line breaks, and a source file is a list of blocks of
lines joined by blank lines. Such a text can be taken apart in one way only, whatever stands in its
lines, as long as no line holds a line break and, for blocks, no line is empty. The main results say so:
`ofLines_inj` for lines and `ofBlocks_inj` for blocks. A blank line in such a text of blocks is a single
one, between two blocks (`exists_cons_of_ofBlocks_eq`).

Both are the same fact about splitting a list at a separator, used once at the characters of a text and
once at its lines: a blank line between two blocks is an empty line among the lines of the whole file
(`ofBlocks_eq_ofLines`).
-/
import WireRecord.Proofs.Text.Digits
import Mathlib.Data.List.Chain

set_option autoImplicit false

namespace WireRecord.Text

/-- Whether a text stays on its line. -/
def IsLine (s : String) : Prop := '\n' ∉ s.toList

instance (s : String) : Decidable (IsLine s) := inferInstanceAs (Decidable (¬ _))

@[simp] theorem isLine_append {s t : String} : IsLine (s ++ t) ↔ IsLine s ∧ IsLine t := by
  simp only [IsLine, String.toList_append, List.mem_append, not_or]

/-- The digits of a number stay on their line. -/
@[simp] theorem isLine_repr (n : Nat) : IsLine (Nat.repr n) := not_mem_repr (by decide) n

/-- **The first delimiter cuts a text in one way.** What stands before it is free of it, and what
stands behind it is arbitrary. -/
theorem append_cons_inj {c : Char} {x y s t : List Char} (hx : c ∉ x) (hy : c ∉ y)
    (h : x ++ c :: s = y ++ c :: t) : x = y ∧ s = t := by
  induction x generalizing y with
  | nil =>
    cases y with
    | nil => exact ⟨rfl, (List.cons.inj h).2⟩
    | cons d y => exact absurd (List.cons.inj h).1 fun hcd => hy (hcd ▸ List.mem_cons_self)
  | cons d x ih =>
    cases y with
    | nil => exact absurd (List.cons.inj h).1.symm fun hcd => hx (hcd ▸ List.mem_cons_self)
    | cons e y =>
      obtain ⟨rfl, htail⟩ := List.cons.inj h
      obtain ⟨rfl, rfl⟩ := ih (fun hm => hx (List.mem_cons_of_mem d hm))
        (fun hm => hy (List.mem_cons_of_mem d hm)) htail
      exact ⟨rfl, rfl⟩

/-- Behind the first texts of a join, each text comes with its separator. -/
theorem intercalate_append {sep : String} {first rest : List String} (h : first ≠ []) :
    sep.intercalate (first ++ rest) = sep.intercalate first ++ String.join (rest.map (sep ++ ·)) := by
  induction rest generalizing first with
  | nil => rw [List.append_nil, List.map_nil, String.join_nil, String.append_empty]
  | cons text rest ih =>
    have hstep : first ++ text :: rest = (first ++ [text]) ++ rest := by simp
    rw [hstep, ih (by simp), String.intercalate_append_of_ne_nil h (by simp),
      String.intercalate_singleton, List.map_cons, String.join_cons]
    simp only [String.append_assoc]

/-! ## Lines -/

/-- The text of lines, with a break between each two. -/
def ofLines (lines : List String) : String := "\n".intercalate lines

/-- Only the last line is not followed by a break. -/
theorem ofLines_concat (lines : List String) (last : String) :
    ofLines (lines ++ [last]) = String.join (lines.map (· ++ "\n")) ++ last := by
  unfold ofLines
  induction lines with
  | nil => rw [List.nil_append, String.intercalate_singleton, List.map_nil, String.join_nil,
      String.empty_append]
  | cons line rest ih =>
    rw [List.cons_append, String.intercalate_cons_of_ne_nil (by simp), ih, List.map_cons,
      String.join_cons]
    simp only [String.append_assoc]

theorem ofLines_append {a b : List String} (ha : a ≠ []) (hb : b ≠ []) :
    ofLines (a ++ b) = ofLines a ++ "\n" ++ ofLines b :=
  String.intercalate_append_of_ne_nil ha hb

theorem splitOn_ofLines {lines : List String} (h : ∀ line ∈ lines, IsLine line) (hne : lines ≠ []) :
    (ofLines lines).toList.splitOn '\n' = lines.map String.toList := by
  rw [ofLines, String.toList_intercalate]
  refine List.splitOn_intercalate '\n' ?_ (by simpa using hne)
  intro chars hchars
  obtain ⟨line, hline, rfl⟩ := List.mem_map.mp hchars
  exact h line hline

/-- The lines of a text, as they stand between its line breaks. -/
def lines (s : String) : List String := (s.toList.splitOn '\n').map String.ofList

theorem lines_ofLines {ls : List String} (h : ∀ line ∈ ls, IsLine line) (hne : ls ≠ []) :
    lines (ofLines ls) = ls := by
  rw [lines, splitOn_ofLines h hne, List.map_map]
  refine (List.map_congr_left ?_).trans (List.map_id ls)
  intro line _
  exact String.ofList_toList

/-- **Lines can be read off a text.** -/
theorem ofLines_inj {a b : List String} (ha : ∀ line ∈ a, IsLine line) (hb : ∀ line ∈ b, IsLine line)
    (ha' : a ≠ []) (hb' : b ≠ []) : ofLines a = ofLines b ↔ a = b := by
  refine ⟨fun h => ?_, congrArg ofLines⟩
  have hchars : a.map String.toList = b.map String.toList := by
    rw [← splitOn_ofLines ha ha', h, splitOn_ofLines hb hb']
  exact (List.map_inj_right fun _ _ => String.toList_inj.mp).mp hchars

/-! ## Blocks -/

/-- Lines that stand together: at least one, and none of them empty. -/
structure IsBlock (lines : List String) : Prop where
  ne_nil : lines ≠ []
  isLine : ∀ line ∈ lines, IsLine line
  not_blank : "" ∉ lines

/-- The text of blocks, with a blank line between each two and a break at the end. -/
def ofBlocks (blocks : List (List String)) : String :=
  "\n\n".intercalate (blocks.map ofLines) ++ "\n"

/-- The lines of blocks, with an empty line between each two. -/
def blockLines (blocks : List (List String)) : List String := [""].intercalate blocks

@[simp] theorem blockLines_singleton (block : List String) : blockLines [block] = block :=
  List.intercalate_singleton

@[simp] theorem blockLines_cons_cons (block next : List String) (rest : List (List String)) :
    blockLines (block :: next :: rest) = block ++ [""] ++ blockLines (next :: rest) :=
  List.intercalate_cons_cons

theorem blockLines_ne_nil {blocks : List (List String)} (h : ∀ block ∈ blocks, block ≠ [])
    (hne : blocks ≠ []) : blockLines blocks ≠ [] := by
  match blocks with
  | [] => exact absurd rfl hne
  | [block] =>
    rw [blockLines_singleton]
    exact h block List.mem_cons_self
  | block :: next :: rest => simp

/-- A line of a file of blocks is a line of a block or stands between two. -/
theorem mem_blockLines {blocks : List (List String)} {line : String} (h : line ∈ blockLines blocks) :
    line = "" ∨ ∃ block ∈ blocks, line ∈ block := by
  induction blocks with
  | nil => cases h
  | cons block rest ih =>
    cases rest with
    | nil =>
      rw [blockLines_singleton] at h
      exact Or.inr ⟨block, List.mem_cons_self, h⟩
    | cons next rest =>
      rw [blockLines_cons_cons, List.mem_append, List.mem_append, List.mem_singleton] at h
      rcases h with (h | h) | h
      · exact Or.inr ⟨block, List.mem_cons_self, h⟩
      · exact Or.inl h
      · rcases ih h with h | ⟨b, hb, h⟩
        · exact Or.inl h
        · exact Or.inr ⟨b, List.mem_cons_of_mem block hb, h⟩

/-- A break before and after an empty line is a blank line. -/
theorem intercalate_ofLines {blocks : List (List String)} (h : ∀ block ∈ blocks, block ≠ []) :
    "\n\n".intercalate (blocks.map ofLines) = ofLines (blockLines blocks) := by
  induction blocks with
  | nil => rfl
  | cons block rest ih =>
    cases rest with
    | nil => rw [List.map_singleton, String.intercalate_singleton, blockLines_singleton]
    | cons next rest =>
      have hblock : block ≠ [] := h block List.mem_cons_self
      have hrest : ∀ b ∈ next :: rest, b ≠ [] := fun b hb => h b (List.mem_cons_of_mem block hb)
      have hlines : blockLines (next :: rest) ≠ [] := blockLines_ne_nil hrest (by simp)
      rw [List.map_cons, List.map_cons, String.intercalate_cons_cons, ← List.map_cons, ih hrest,
        blockLines_cons_cons, List.append_assoc, ofLines_append hblock (by simp), ofLines_append (by simp) hlines]
      simp only [ofLines, String.intercalate_singleton, String.append_assoc, String.empty_append]
      rfl

/-- A text of blocks is a text of lines, the last of which is empty. -/
theorem ofBlocks_eq_ofLines {blocks : List (List String)} (h : ∀ block ∈ blocks, block ≠ [])
    (hne : blocks ≠ []) : ofBlocks blocks = ofLines (blockLines blocks ++ [""]) := by
  rw [ofBlocks, intercalate_ofLines h, ofLines_append (blockLines_ne_nil h hne) (by simp)]
  exact (String.append_empty).symm

/-- The lines of a file of blocks, with the empty one at its end, are single lines. -/
theorem isLine_of_mem_blockLines {blocks : List (List String)} (h : ∀ block ∈ blocks, IsBlock block) :
    ∀ line ∈ blockLines blocks ++ [""], IsLine line := by
  intro line hline
  rw [List.mem_append, List.mem_singleton] at hline
  have hcases := hline.imp_left mem_blockLines
  rcases hcases with (rfl | ⟨block, hblock, hmem⟩) | rfl
  · decide
  · exact (h block hblock).isLine line hmem
  · decide

/-- **Blocks can be read off a text.** -/
theorem ofBlocks_inj {a b : List (List String)} (ha : ∀ block ∈ a, IsBlock block)
    (hb : ∀ block ∈ b, IsBlock block) (ha' : a ≠ []) (hb' : b ≠ []) :
    ofBlocks a = ofBlocks b ↔ a = b := by
  refine ⟨fun h => ?_, congrArg ofBlocks⟩
  rw [ofBlocks_eq_ofLines (fun block hm => (ha block hm).ne_nil) ha',
    ofBlocks_eq_ofLines (fun block hm => (hb block hm).ne_nil) hb',
    ofLines_inj (isLine_of_mem_blockLines ha) (isLine_of_mem_blockLines hb) (by simp) (by simp),
    List.append_cancel_right_eq] at h
  -- the lines split at the empty ones, as the text split at the breaks
  have hsplit : ∀ blocks : List (List String), (∀ block ∈ blocks, IsBlock block) → blocks ≠ [] →
      (blockLines blocks).splitOn "" = blocks := fun blocks hblocks hne =>
    List.splitOn_intercalate "" (fun block hm => (hblocks block hm).not_blank) hne
  rw [← hsplit a ha ha', h, hsplit b hb hb']

/-! ## Blank lines -/

/-- The lines of a file of blocks, each block with the empty line behind it. -/
theorem blockLines_concat {blocks : List (List String)} (hne : blocks ≠ []) :
    blockLines blocks ++ [""] = (blocks.map (· ++ [""])).flatten := by
  induction blocks with
  | nil => exact absurd rfl hne
  | cons block rest ih =>
    cases rest with
    | nil => simp
    | cons next rest =>
      rw [blockLines_cons_cons, List.append_assoc, ih (by simp)]
      rfl

/-- Of two lines of a file of blocks, one behind the other, at most one is empty. -/
theorem isChain_blockLines {blocks : List (List String)} (h : ∀ block ∈ blocks, IsBlock block)
    (hne : blocks ≠ []) :
    (blockLines blocks ++ [""]).IsChain fun line next => line ≠ "" ∨ next ≠ "" := by
  have hline : ∀ block ∈ blocks, ∀ line ∈ block, line ≠ "" := by
    rintro block hblock line hmem rfl
    exact (h block hblock).not_blank hmem
  rw [blockLines_concat hne, List.isChain_flatten (by simp)]
  constructor
  · intro piece hpiece
    obtain ⟨block, hblock, rfl⟩ := List.mem_map.mp hpiece
    apply List.Pairwise.isChain
    rw [List.pairwise_append]
    refine ⟨?_, List.pairwise_singleton _ _, fun line hmem _ _ => Or.inl (hline block hblock line hmem)⟩
    apply List.pairwise_of_forall_mem_list
    intro line hmem next _
    exact Or.inl (hline block hblock line hmem)
  · -- an empty line ends one block, and the next block begins with a line of its own
    apply List.Pairwise.isChain
    apply List.pairwise_of_forall_mem_list
    intro piece _ next hnext line _ first hfirst
    obtain ⟨block, hblock, rfl⟩ := List.mem_map.mp hnext
    rw [List.head?_append_of_ne_nil _ (h block hblock).ne_nil] at hfirst
    exact Or.inr (hline block hblock first (List.mem_of_mem_head? hfirst))

/-- **Behind a blank line comes a line that is not blank.** Two breaks, one behind the other, are neither
the end of a text of blocks nor followed by a third. -/
theorem exists_cons_of_ofBlocks_eq {blocks : List (List String)} (h : ∀ block ∈ blocks, IsBlock block)
    (hne : blocks ≠ []) {before after : List Char}
    (htext : (ofBlocks blocks).toList = before ++ '\n' :: '\n' :: after) :
    ∃ c rest, after = c :: rest ∧ c ≠ '\n' := by
  have hsplit : (blockLines blocks ++ [""]).map String.toList =
      before.splitOn '\n' ++ [] :: after.splitOn '\n' := by
    rw [← splitOn_ofLines (isLine_of_mem_blockLines h) (by simp),
      ← ofBlocks_eq_ofLines (fun block hm => (h block hm).ne_nil) hne, htext,
      List.splitOn_append_cons_self]
    exact congrArg (before.splitOn '\n' ++ ·) (List.splitOn_append_cons_self [] after)
  have hchain : (before.splitOn '\n' ++ [] :: after.splitOn '\n').IsChain
      fun line next => line ≠ [] ∨ next ≠ [] := by
    rw [← hsplit, List.isChain_map]
    apply (isChain_blockLines h hne).imp
    intro line next hblank
    exact hblank.imp (mt String.toList_eq_nil_iff.mp) (mt String.toList_eq_nil_iff.mp)
  -- the line behind the empty one
  have hnext : ∀ rest, after.splitOn '\n' ≠ [] :: rest := by
    intro rest hrest
    rw [hrest] at hchain
    rcases hchain.right_of_append.rel with hfalse | hfalse
    · exact hfalse rfl
    · exact hfalse rfl
  cases after with
  | nil => exact absurd (List.splitOn_nil '\n') (hnext [])
  | cons c rest =>
    refine ⟨c, rest, rfl, ?_⟩
    rintro rfl
    exact hnext _ (List.splitOn_append_cons_self [] rest)

end WireRecord.Text
