/-
Texts taken apart. The pieces of a text between separators are those texts without a separator that make it
up again with separators between them, and lines that each have an end are the lines of their text. Words that
have blanks between them, and any blanks around them, are the words of the text; a line starts with the word
behind its first spaces.
-/
import GraphLoad.Text.Blank

namespace GraphLoad.Text

variable {sep : Char} {run cs ds : List Char}

/-! ## Pieces -/

theorem piecesFrom_ne_nil (sep : Char) (run cs : List Char) : piecesFrom sep run cs ≠ [] := by
  intro h
  have hlength := length_piecesFrom sep run cs
  rw [h] at hlength
  cases hlength

/-- With separators between them the pieces are the text. -/
theorem intercalate_piecesFrom (sep : Char) (run cs : List Char) :
    [sep].intercalate (piecesFrom sep run cs) = run ++ cs := by
  induction cs generalizing run with
  | nil => simp [piecesFrom]
  | cons c cs ih =>
    unfold piecesFrom
    split
    · next h =>
      subst h
      obtain ⟨p, ps, hps⟩ := List.exists_cons_of_ne_nil (piecesFrom_ne_nil c [] cs)
      have hrest := @ih []
      rw [hps] at hrest ⊢
      rw [List.intercalate_cons_cons, hrest]
      simp
    · rw [ih]
      simp

theorem not_mem_piecesFrom (h : sep ∉ run) : ∀ p ∈ piecesFrom sep run cs, sep ∉ p := by
  induction cs generalizing run with
  | nil =>
    intro p hp
    rw [List.mem_singleton.1 hp]
    exact h
  | cons c cs ih =>
    unfold piecesFrom
    split
    · intro p hp
      rcases List.mem_cons.1 hp with rfl | hp
      · exact h
      · exact ih List.not_mem_nil p hp
    · next hc =>
      refine ih fun hmem => ?_
      rcases List.mem_append.1 hmem with hmem | hmem
      · exact h hmem
      · exact hc (List.mem_singleton.1 hmem).symm

theorem piecesFrom_append (h : sep ∉ cs) :
    piecesFrom sep run (cs ++ ds) = piecesFrom sep (run ++ cs) ds := by
  induction cs generalizing run with
  | nil => rw [List.nil_append, List.append_nil]
  | cons c cs ih =>
    rw [List.mem_cons, not_or] at h
    rw [List.cons_append, piecesFrom, if_neg (Ne.symm h.1), ih h.2, List.append_assoc]
    rfl

theorem length_pieces (sep : Char) (s : String) :
    (pieces sep s).length = s.toList.count sep + 1 := by
  rw [pieces, List.length_map, length_piecesFrom]

theorem not_mem_pieces {s : String} : ∀ p ∈ pieces sep s, sep ∉ p.toList := by
  intro p hp
  obtain ⟨q, hq, rfl⟩ := List.mem_map.1 hp
  rw [String.toList_ofList]
  exact not_mem_piecesFrom List.not_mem_nil q hq

theorem intercalate_pieces (sep : Char) (s : String) :
    String.intercalate (String.singleton sep) (pieces sep s) = s := by
  rw [← String.toList_inj, String.toList_intercalate, pieces, List.map_map]
  have hid : String.toList ∘ String.ofList = id := funext fun _ => String.toList_ofList
  rw [hid, List.map_id, String.toList_singleton, intercalate_piecesFrom, List.nil_append]

/-- Texts without a separator are the pieces of what they make up. -/
theorem pieces_intercalate : ∀ {ps : List String}, ps ≠ [] → (∀ p ∈ ps, sep ∉ p.toList) →
    pieces sep (String.intercalate (String.singleton sep) ps) = ps
  | [], h, _ => (h rfl).elim
  | [p], _, hp => by
    have hfree := hp p (List.mem_singleton_self p)
    rw [String.intercalate_singleton, pieces, ← List.append_nil p.toList, piecesFrom_append hfree]
    simp [piecesFrom]
  | p :: q :: ps, _, hp => by
    have hfree := hp p (List.mem_cons_self ..)
    have hrest := pieces_intercalate (List.cons_ne_nil q ps) fun r hr =>
      hp r (List.mem_cons_of_mem _ hr)
    rw [String.intercalate_cons_cons, pieces, String.toList_append, String.toList_append,
      String.toList_singleton, List.append_assoc, piecesFrom_append hfree, List.singleton_append,
      piecesFrom, if_pos rfl, List.nil_append, List.map_cons, String.ofList_toList]
    exact congrArg (p :: ·) hrest

/-- Lines that each have an end are read back, with nothing behind the last end. -/
theorem pieces_lines {lines : List String} (h : ∀ l ∈ lines, '\n' ∉ l.toList) :
    pieces '\n' (String.join (lines.map (· ++ "\n"))) = lines ++ [""] := by
  induction lines with
  | nil => rfl
  | cons l lines ih =>
    have hfree := h l (List.mem_cons_self ..)
    have hrest := ih fun l' hl => h l' (List.mem_cons_of_mem _ hl)
    have htext : (l ++ "\n").toList = l.toList ++ ['\n'] := String.toList_append
    rw [List.map_cons, String.join_cons, pieces, String.toList_append, htext, List.append_assoc,
      piecesFrom_append hfree, List.singleton_append, piecesFrom, if_pos rfl, List.nil_append,
      List.map_cons, String.ofList_toList]
    exact congrArg (l :: ·) hrest

/-- A text has no line break if none of its bytes is one. -/
theorem not_newline_of_bytes {s : String} (h : (10 : UInt8) ∉ s.toByteArray.data.toList) :
    '\n' ∉ s.toList := by
  intro hmem
  refine h ?_
  rw [← String.utf8Encode_toList, List.utf8Encode, List.data_toByteArray]
  exact List.mem_flatMap.2 ⟨'\n', hmem, by decide⟩

/-! ## Words -/

/-- Blanks before the first word are no part of it. -/
theorem wordsFrom_blanks (h : ∀ c ∈ cs, isBlank c = true) :
    wordsFrom [] (cs ++ ds) = wordsFrom [] ds := by
  induction cs with
  | nil => rfl
  | cons c cs ih =>
    rw [List.cons_append, wordsFrom, if_pos (h c (List.mem_cons_self ..)), if_pos List.isEmpty_nil]
    exact ih fun d hd => h d (List.mem_cons_of_mem _ hd)

/-- A word goes on up to a blank. -/
theorem wordsFrom_word (h : ∀ c ∈ cs, isBlank c = false) :
    wordsFrom run (cs ++ ds) = wordsFrom (run ++ cs) ds := by
  induction cs generalizing run with
  | nil => rw [List.nil_append, List.append_nil]
  | cons c cs ih =>
    rw [List.cons_append, wordsFrom, if_neg (by rw [h c (List.mem_cons_self ..)]; decide),
      ih fun d hd => h d (List.mem_cons_of_mem _ hd), List.append_assoc]
    rfl

/-- With blanks behind it a word is complete. -/
theorem wordsFrom_end (hrun : run ≠ []) (hne : cs ≠ []) (h : ∀ c ∈ cs, isBlank c = true) :
    wordsFrom run (cs ++ ds) = run :: wordsFrom [] ds := by
  match cs with
  | [] => exact (hne rfl).elim
  | c :: cs =>
    rw [List.cons_append, wordsFrom, if_pos (h c (List.mem_cons_self ..)), if_neg (by simpa using hrun),
      wordsFrom_blanks fun d hd => h d (List.mem_cons_of_mem _ hd)]

theorem wordsFrom_last (hrun : run ≠ []) (h : ∀ c ∈ cs, isBlank c = true) :
    wordsFrom run cs = [run] := by
  by_cases hne : cs = []
  · rw [hne, wordsFrom, if_neg (by simpa using hrun)]
  · rw [← List.append_nil cs, wordsFrom_end hrun hne h]
    rfl

/-- Two words with blanks between them, and any blanks around them. -/
theorem words_two {s v w : String} {before between after : List Char}
    (hs : s.toList = before ++ v.toList ++ between ++ w.toList ++ after)
    (hbefore : ∀ c ∈ before, isBlank c = true) (hbetween : ∀ c ∈ between, isBlank c = true)
    (hafter : ∀ c ∈ after, isBlank c = true) (hne : between ≠ [])
    (hv : ∀ c ∈ v.toList, isBlank c = false) (hw : ∀ c ∈ w.toList, isBlank c = false)
    (hv' : v.toList ≠ []) (hw' : w.toList ≠ []) : words s = [v, w] := by
  have hwords : wordsFrom [] s.toList = [v.toList, w.toList] := by
    rw [hs, List.append_assoc, List.append_assoc, List.append_assoc, wordsFrom_blanks hbefore,
      wordsFrom_word hv, List.nil_append, wordsFrom_end hv' hne hbetween, wordsFrom_word hw,
      List.nil_append, wordsFrom_last hw' hafter]
  rw [words, hwords, List.map_cons, List.map_singleton, String.ofList_toList, String.ofList_toList]

/-! ## The start of a line -/

/-- A text is a word if none of its characters is a blank. -/
theorem word_of_any {s : String} (h : s.toList.any isBlank = false) :
    ∀ c ∈ s.toList, isBlank c = false := by
  intro c hc
  rw [Bool.eq_false_iff]
  exact List.any_eq_false.1 h c hc

/-- How a line starts: the number of spaces before its first word, and that word. -/
def lead (line : String) : Nat × String :=
  ((line.toList.takeWhile (· == ' ')).length, (words line).headD "")

/-- A line starts with the word behind its first spaces, whatever comes behind the blank that ends it. -/
theorem lead_line {line : String} {n : Nat} {w rest : List Char}
    (hline : line.toList = List.replicate n ' ' ++ w ++ ' ' :: rest) (hne : w ≠ [])
    (hw : ∀ c ∈ w, isBlank c = false) : lead line = (n, String.ofList w) := by
  have hspaces : ∀ c ∈ List.replicate n ' ', (c == ' ') = true := by
    intro c hc
    rw [List.eq_of_mem_replicate hc]
    rfl
  have hblanks : ∀ c ∈ List.replicate n ' ', isBlank c = true := by
    intro c hc
    rw [List.eq_of_mem_replicate hc]
    rfl
  have hindent : (line.toList.takeWhile (· == ' ')).length = n := by
    obtain ⟨c, cs, rfl⟩ := List.exists_cons_of_ne_nil hne
    have hc : (c == ' ') = false := by
      rw [beq_eq_false_iff_ne]
      rintro rfl
      exact absurd (hw ' ' (List.mem_cons_self ..)) (by decide)
    rw [hline, List.append_assoc, List.takeWhile_append_of_pos hspaces, List.cons_append,
      List.takeWhile_cons_of_neg (by rw [hc]; exact Bool.false_ne_true), List.append_nil,
      List.length_replicate]
  have hwords : wordsFrom [] line.toList = w :: wordsFrom [] rest := by
    have hblank : ∀ c ∈ [' '], isBlank c = true := List.forall_mem_singleton.2 (by decide)
    rw [hline, List.append_assoc, wordsFrom_blanks hblanks, wordsFrom_word hw, List.nil_append,
      ← List.singleton_append, wordsFrom_end hne (List.cons_ne_nil ' ' []) hblank]
  rw [lead, hindent, words, hwords, List.map_cons, List.headD_cons]

end GraphLoad.Text
