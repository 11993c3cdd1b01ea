import Mathlib.Data.List.Infix
import Mathlib.Data.List.Nodup
import Mathlib.Data.List.TakeWhile

/-!
# Texts made of words

A test of the symbols splits a text into words, the longest runs of symbols that pass it, and the
symbols between them. `mapWords` replaces the words and leaves what is between them; `replaceAll`
replaces every occurrence of a pattern, from the left, whatever stands around it. A pattern that is
itself a word occurs within the words only, so that replacing it in a text is replacing it in each
of them (`replaceAll_eq_mapWords`), and replacing several, one after another, renames the words that
are one of them (`replaceEach_eq`).
-/

namespace GenropyAsgi.Library.Words

variable {α : Type} (p : α → Bool)

/-! ## Words -/

/-- Symbols that pass the test, one at least. -/
def IsWord (w : List α) : Prop := w ≠ [] ∧ ∀ c ∈ w, p c = true

/-- A text that does not go on with a word. -/
def Parted (text : List α) : Prop := ∀ c ∈ text.head?, p c = false

/-- A symbol between the words, or a word. -/
abbrev Piece (α : Type) := α ⊕ List α

/-- A symbol of a word, before what follows. -/
def joinWord (c : α) : List (Piece α) → List (Piece α)
  | .inr w :: later => .inr (c :: w) :: later
  | pieces => .inr [c] :: pieces

/-- The words of a text, and what is between them. -/
def pieces : List α → List (Piece α)
  | [] => []
  | c :: rest => if p c then joinWord c (pieces rest) else .inl c :: pieces rest

/-- The words of a text. -/
def words (text : List α) : List (List α) :=
  (pieces p text).filterMap fun piece =>
    match piece with
    | .inl _ => none
    | .inr w => some w

/-- The text with its words replaced. -/
def mapWords (f : List α → List α) (text : List α) : List α :=
  (pieces p text).flatMap fun piece =>
    match piece with
    | .inl c => [c]
    | .inr w => f w

variable {p}

/-- A symbol between the words. -/
theorem pieces_gap {c : α} (hc : p c = false) (rest : List α) :
    pieces p (c :: rest) = .inl c :: pieces p rest := by
  rw [pieces, if_neg (by rw [hc]; exact Bool.false_ne_true)]

/-- A text that does not go on with a word has no word for its first piece. -/
theorem pieces_parted {text : List α} (h : Parted p text) (w : List α)
    (later : List (Piece α)) : pieces p text ≠ .inr w :: later := by
  cases text with
  | nil => exact List.cons_ne_nil _ _ ∘ Eq.symm
  | cons c rest =>
    rw [pieces_gap (h c rfl)]
    exact fun heq => nomatch (List.cons.inj heq).1

/-- A word, and what follows. -/
theorem pieces_word {w rest : List α} (hw : IsWord p w) (hrest : Parted p rest) :
    pieces p (w ++ rest) = .inr w :: pieces p rest := by
  obtain ⟨hnil, hall⟩ := hw
  induction w with
  | nil => exact absurd rfl hnil
  | cons c w ih =>
    obtain ⟨hc, hall⟩ := List.forall_mem_cons.1 hall
    -- The symbols of a word are joined from its last one on.
    rw [List.cons_append, pieces, if_pos hc]
    by_cases hw : w = []
    · subst hw
      rw [List.nil_append]
      unfold joinWord
      split
      · rename_i v later heq
        exact absurd heq (pieces_parted hrest v later)
      · rfl
    · rw [ih hw hall, joinWord]

/-- A text is empty, or begins with a symbol between the words, or with a word. -/
theorem words_induction {motive : List α → Prop} (nil : motive [])
    (gap : ∀ c rest, p c = false → motive rest → motive (c :: rest))
    (word : ∀ w rest, IsWord p w → Parted p rest → motive rest → motive (w ++ rest)) :
    ∀ text, motive text := by
  intro text
  induction hn : text.length using Nat.strong_induction_on generalizing text with
  | _ n ih =>
    subst hn
    cases text with
    | nil => exact nil
    | cons c rest =>
      cases hc : p c with
      | false => exact gap c rest hc (ih rest.length (Nat.lt_succ_self _) rest rfl)
      | true =>
        -- The first word is as long as it can be.
        have hsplit : c :: rest = (c :: rest.takeWhile p) ++ rest.dropWhile p := by
          rw [List.cons_append, List.takeWhile_append_dropWhile]
        have hparted : Parted p (rest.dropWhile p) := by
          intro d hd
          have hhead := List.head?_dropWhile_not p rest
          rw [Option.mem_def.1 hd] at hhead
          exact hhead
        rw [hsplit]
        refine word _ _ ⟨List.cons_ne_nil _ _, ?_⟩ hparted (ih _ ?_ _ rfl)
        · exact List.forall_mem_cons.2 ⟨hc, fun d hd => List.mem_takeWhile_imp hd⟩
        · exact Nat.lt_succ_of_le (List.dropWhile_suffix p).length_le

/-! ## The words of a text, and their images -/

@[simp]
theorem words_nil : words p [] = [] := rfl

/-- A symbol between the words is none of them. -/
theorem words_gap {c : α} (hc : p c = false) (rest : List α) :
    words p (c :: rest) = words p rest := by
  rw [words, pieces_gap hc]
  rfl

/-- The word that a text begins with, and those after it. -/
theorem words_word {w rest : List α} (hw : IsWord p w) (hrest : Parted p rest) :
    words p (w ++ rest) = w :: words p rest := by
  rw [words, pieces_word hw hrest]
  rfl

@[simp]
theorem mapWords_nil (f : List α → List α) : mapWords p f [] = [] := rfl

/-- A symbol between the words stays. -/
theorem mapWords_gap (f : List α → List α) {c : α} (hc : p c = false) (rest : List α) :
    mapWords p f (c :: rest) = c :: mapWords p f rest := by
  rw [mapWords, pieces_gap hc]
  rfl

/-- The word that a text begins with is replaced, and so are those after it. -/
theorem mapWords_word (f : List α → List α) {w rest : List α} (hw : IsWord p w)
    (hrest : Parted p rest) : mapWords p f (w ++ rest) = f w ++ mapWords p f rest := by
  rw [mapWords, pieces_word hw hrest]
  rfl

/-- The words are words. -/
theorem isWord_of_mem {text w : List α} (hw : w ∈ words p text) : IsWord p w := by
  induction text using words_induction (p := p) with
  | nil => exact absurd hw List.not_mem_nil
  | gap c rest hc ih =>
    rw [words_gap hc] at hw
    exact ih hw
  | word v rest hv hrest ih =>
    rw [words_word hv hrest] at hw
    rcases List.mem_cons.1 hw with rfl | hw
    · exact hv
    · exact ih hw

/-- A text whose words are replaced begins with a symbol between them exactly when the text does. -/
theorem Parted.mapWords {rest : List α} (hrest : Parted p rest) (f : List α → List α) :
    Parted p (mapWords p f rest) := by
  cases rest with
  | nil => exact hrest
  | cons c rest =>
    have hc : p c = false := hrest c rfl
    rw [mapWords_gap f hc]
    exact fun d hd => by cases hd; exact hc

/-- The words of the text whose words are replaced by words. -/
theorem words_mapWords {f : List α → List α} {text : List α}
    (hf : ∀ w ∈ words p text, IsWord p (f w)) :
    words p (mapWords p f text) = (words p text).map f := by
  induction text using words_induction (p := p) with
  | nil => rfl
  | gap c rest hc ih =>
    rw [words_gap hc] at hf ⊢
    rw [mapWords_gap f hc, words_gap hc, ih hf]
  | word v rest hv hrest ih =>
    rw [words_word hv hrest] at hf ⊢
    obtain ⟨hfv, hf⟩ := List.forall_mem_cons.1 hf
    rw [mapWords_word f hv hrest, words_word hfv (hrest.mapWords f), ih hf, List.map_cons]

/-- The images of the words determine the text. -/
theorem mapWords_congr {f g : List α → List α} {text : List α}
    (h : ∀ w ∈ words p text, f w = g w) : mapWords p f text = mapWords p g text := by
  induction text using words_induction (p := p) with
  | nil => rfl
  | gap c rest hc ih =>
    rw [words_gap hc] at h
    rw [mapWords_gap f hc, mapWords_gap g hc, ih h]
  | word v rest hv hrest ih =>
    rw [words_word hv hrest] at h
    obtain ⟨hfv, h⟩ := List.forall_mem_cons.1 h
    rw [mapWords_word f hv hrest, mapWords_word g hv hrest, ih h, hfv]

/-- Where words are replaced by words, the text determines the images. -/
theorem mapWords_eq_iff {f g : List α → List α} {text : List α}
    (hf : ∀ w ∈ words p text, IsWord p (f w)) (hg : ∀ w ∈ words p text, IsWord p (g w)) :
    mapWords p f text = mapWords p g text ↔ ∀ w ∈ words p text, f w = g w := by
  refine ⟨fun h => ?_, mapWords_congr⟩
  have hwords := congrArg (words p) h
  rw [words_mapWords hf, words_mapWords hg] at hwords
  exact List.map_inj_left.1 hwords

/-- A text whose words stay is as it was. -/
theorem mapWords_id (text : List α) : mapWords p id text = text := by
  induction text using words_induction (p := p) with
  | nil => rfl
  | gap c rest hc ih => rw [mapWords_gap id hc, ih]
  | word v rest hv hrest ih => rw [mapWords_word id hv hrest, ih, id]

/-- A text is as it was exactly when its words stay. -/
theorem mapWords_eq_self_iff {f : List α → List α} {text : List α}
    (hf : ∀ w ∈ words p text, IsWord p (f w)) :
    mapWords p f text = text ↔ ∀ w ∈ words p text, f w = w := by
  have h := mapWords_eq_iff (g := id) hf fun w hw => isWord_of_mem hw
  rwa [mapWords_id] at h

/-- Words replaced twice. -/
theorem mapWords_mapWords {f g : List α → List α} {text : List α}
    (hf : ∀ w ∈ words p text, IsWord p (f w)) :
    mapWords p g (mapWords p f text) = mapWords p (g ∘ f) text := by
  induction text using words_induction (p := p) with
  | nil => rfl
  | gap c rest hc ih =>
    rw [words_gap hc] at hf
    rw [mapWords_gap f hc, mapWords_gap g hc, mapWords_gap _ hc, ih hf]
  | word v rest hv hrest ih =>
    rw [words_word hv hrest] at hf
    obtain ⟨hfv, hf⟩ := List.forall_mem_cons.1 hf
    rw [mapWords_word f hv hrest, mapWords_word g hfv (hrest.mapWords f), mapWords_word _ hv hrest,
      ih hf, Function.comp]

/-- Words replaced by words of their length leave the length of the text. -/
theorem length_mapWords {f : List α → List α} (hf : ∀ w, (f w).length = w.length)
    (text : List α) : (mapWords p f text).length = text.length := by
  induction text using words_induction (p := p) with
  | nil => rfl
  | gap c rest hc ih => rw [mapWords_gap f hc, List.length_cons, ih, List.length_cons]
  | word v rest hv hrest ih =>
    rw [mapWords_word f hv hrest, List.length_append, hf, ih, List.length_append]

/-- Two texts with a symbol between them that is none of a word. -/
theorem mapWords_append_gap (f : List α → List α) (text : List α) {c : α} (hc : p c = false)
    (rest : List α) :
    mapWords p f (text ++ c :: rest) = mapWords p f text ++ c :: mapWords p f rest := by
  induction text using words_induction (p := p) with
  | nil => rw [List.nil_append, mapWords_gap f hc, mapWords_nil, List.nil_append]
  | gap d text hd ih =>
    rw [List.cons_append, mapWords_gap f hd, mapWords_gap f hd, ih, List.cons_append]
  | word v text hv htext ih =>
    have hparted : Parted p (text ++ c :: rest) := by
      cases text with
      | nil => exact fun d hd => by cases hd; exact hc
      | cons d text => exact htext
    rw [List.append_assoc, mapWords_word f hv hparted, mapWords_word f hv htext, ih,
      List.append_assoc]

/-! ## Replacing a pattern -/

section Replace

variable [DecidableEq α] (old new : List α)

/-- A text without its first symbols, its occurrences of a pattern replaced from there on, from the
left. -/
def replaceFrom : ℕ → List α → List α
  | _, [] => []
  | skip + 1, _ :: rest => replaceFrom skip rest
  | 0, c :: rest =>
    if old.isPrefixOf (c :: rest) then new ++ replaceFrom (old.length - 1) rest
    else c :: replaceFrom 0 rest

/-- A text with every occurrence of a pattern that is not empty replaced, from the left. -/
def replaceAll (text : List α) : List α := replaceFrom old new 0 text

variable {old new}

/-- Nothing is left once everything is skipped. -/
theorem replaceFrom_of_length_le {skip : ℕ} {text : List α} (h : text.length ≤ skip) :
    replaceFrom old new skip text = [] := by
  induction text generalizing skip with
  | nil => cases skip <;> rfl
  | cons c text ih =>
    cases skip with
    | zero => exact absurd h (Nat.not_succ_le_zero _)
    | succ skip => exact ih (Nat.le_of_succ_le_succ h)

/-- The pattern itself. -/
theorem replaceAll_self (hold : old ≠ []) : replaceAll old new old = new := by
  cases old with
  | nil => exact absurd rfl hold
  | cons c old =>
    have hprefix : (c :: old).isPrefixOf (c :: old) = true :=
      List.isPrefixOf_iff_prefix.2 List.prefix_rfl
    rw [replaceAll, replaceFrom, if_pos hprefix, List.length_cons, Nat.add_sub_cancel,
      replaceFrom_of_length_le le_rfl, List.append_nil]

/-- A text in which the pattern does not occur. -/
theorem replaceAll_of_absent {text : List α} (h : ¬ old <:+: text) :
    replaceAll old new text = text := by
  unfold replaceAll
  induction text with
  | nil => rfl
  | cons c text ih =>
    have hprefix : ¬ old.isPrefixOf (c :: text) = true := fun hp =>
      h (List.isPrefixOf_iff_prefix.1 hp).isInfix
    rw [replaceFrom, if_neg hprefix, ih fun hwithin => h (List.infix_cons hwithin)]

omit [DecidableEq α] in
/-- A word begins a text whose first symbols go on after a word only if it begins them. -/
theorem prefix_append_iff (hold : ∀ c ∈ old, p c = true) {text rest : List α}
    (hrest : Parted p rest) : old <+: text ++ rest ↔ old <+: text := by
  refine ⟨?_, fun h => h.trans (List.prefix_append text rest)⟩
  rintro ⟨later, hlater⟩
  -- If the pattern went over the end of the text, it would bear the symbol that parts them.
  rcases List.append_eq_append_iff.1 hlater with ⟨mid, hmid, _⟩ | ⟨mid, hmid, hmore⟩
  · exact ⟨mid, hmid.symm⟩
  · cases mid with
    | nil =>
      rw [List.append_nil] at hmid
      exact ⟨[], by rw [List.append_nil, hmid]⟩
    | cons c mid =>
      have hfalse : p c = false := hrest c (by rw [hmore]; rfl)
      have htrue : p c = true := hold c (by rw [hmid]; simp)
      cases hfalse.symm.trans htrue

/-- The occurrences of a word before a text that does not go on with a word. -/
theorem replaceFrom_append (hold : ∀ c ∈ old, p c = true) {text rest : List α}
    (hrest : Parted p rest) {skip : ℕ} (hskip : skip ≤ text.length) :
    replaceFrom old new skip (text ++ rest) =
      replaceFrom old new skip text ++ replaceFrom old new 0 rest := by
  induction text generalizing skip with
  | nil =>
    cases Nat.le_zero.1 hskip
    cases rest <;> rfl
  | cons c text ih =>
    cases skip with
    | succ skip =>
      rw [List.cons_append, replaceFrom, replaceFrom, ih (Nat.le_of_succ_le_succ hskip)]
    | zero =>
      have hiff : old.isPrefixOf (c :: text ++ rest) = true ↔
          old.isPrefixOf (c :: text) = true := by
        rw [List.isPrefixOf_iff_prefix, List.isPrefixOf_iff_prefix, prefix_append_iff hold hrest]
      rw [List.cons_append] at hiff ⊢
      rw [replaceFrom, replaceFrom]
      by_cases hprefix : old.isPrefixOf (c :: text) = true
      · have hlength : old.length ≤ (c :: text).length :=
          (List.isPrefixOf_iff_prefix.1 hprefix).length_le
        have hleft : old.length - 1 ≤ text.length := by
          rw [List.length_cons] at hlength
          omega
        rw [if_pos (hiff.2 hprefix), if_pos hprefix, ih hleft, List.append_assoc]
      · rw [if_neg fun h => hprefix (hiff.1 h), if_neg hprefix, ih (Nat.zero_le _),
          List.cons_append]

/-- Replacing a word in a text is replacing it in each of its words. -/
theorem replaceAll_eq_mapWords (hold : IsWord p old) (text : List α) :
    replaceAll old new text = mapWords p (replaceAll old new) text := by
  induction text using words_induction (p := p) with
  | nil => rfl
  | gap c rest hc ih =>
    have hprefix : ¬ old.isPrefixOf (c :: rest) = true := by
      intro h
      obtain ⟨hnil, hall⟩ := hold
      cases old with
      | nil => exact hnil rfl
      | cons d old =>
        obtain ⟨rfl, _⟩ := List.cons_prefix_cons.1 (List.isPrefixOf_iff_prefix.1 h)
        cases hc.symm.trans (hall d List.mem_cons_self)
    rw [mapWords_gap _ hc, ← ih, replaceAll, replaceFrom, if_neg hprefix]
    rfl
  | word w rest hw hrest ih =>
    rw [mapWords_word _ hw hrest, ← ih]
    exact replaceFrom_append hold.2 hrest (Nat.zero_le _)

/-- One word for another one. -/
def swap (pair : List α × List α) (w : List α) : List α := if w = pair.1 then pair.2 else w

/-- In a text whose words have the pattern in them only if they are the pattern, the words that are
the pattern are renamed. -/
theorem replaceAll_eq_swap (hold : IsWord p old) {text : List α}
    (htext : ∀ w ∈ words p text, old <:+: w → w = old) :
    replaceAll old new text = mapWords p (swap (old, new)) text := by
  rw [replaceAll_eq_mapWords hold]
  refine mapWords_congr fun w hw => ?_
  by_cases hsame : w = old
  · rw [hsame, replaceAll_self hold.1, swap, if_pos rfl]
  · rw [replaceAll_of_absent fun h => hsame (htext w hw h), swap, if_neg hsame]

/-- Several patterns, one after another. -/
def replaceEach (pairs : List (List α × List α)) (text : List α) : List α :=
  pairs.foldl (fun text pair => replaceAll pair.1 pair.2 text) text

/-- Several words for others, one after another. -/
def swapEach (pairs : List (List α × List α)) (w : List α) : List α :=
  pairs.foldl (fun w pair => swap pair w) w

/-- A word stays one under another name. -/
theorem isWord_swap {pair : List α × List α} (hpair : IsWord p pair.2) {w : List α}
    (hw : IsWord p w) : IsWord p (swap pair w) := by
  unfold swap
  split_ifs
  · exact hpair
  · exact hw

/-- It stays one under other names. -/
theorem isWord_swapEach {pairs : List (List α × List α)}
    (hpairs : ∀ pair ∈ pairs, IsWord p pair.2) {w : List α} (hw : IsWord p w) :
    IsWord p (swapEach pairs w) := by
  induction pairs generalizing w with
  | nil => exact hw
  | cons pair pairs ih =>
    obtain ⟨hpair, hpairs⟩ := List.forall_mem_cons.1 hpairs
    exact ih hpairs (isWord_swap hpair hw)

/-- Replacing words of one length, one after another, renames the words of a text that are one of
them, if its words have them in them only so. -/
theorem replaceEach_eq {pairs : List (List α × List α)} {n : ℕ}
    (hpairs : ∀ pair ∈ pairs, IsWord p pair.1 ∧ IsWord p pair.2)
    (hlength : ∀ pair ∈ pairs, pair.1.length = n ∧ pair.2.length = n) {text : List α}
    (htext : ∀ w ∈ words p text, ∀ pair ∈ pairs, pair.1 <:+: w → w = pair.1) :
    replaceEach pairs text = mapWords p (swapEach pairs) text := by
  induction pairs generalizing text with
  | nil => exact (mapWords_id text).symm
  | cons pair pairs ih =>
    obtain ⟨⟨hold, hnew⟩, hpairs⟩ := List.forall_mem_cons.1 hpairs
    obtain ⟨⟨_, hnewLength⟩, hlength⟩ := List.forall_mem_cons.1 hlength
    have hswap : ∀ w ∈ words p text, IsWord p (swap pair w) := fun w hw =>
      isWord_swap hnew (isWord_of_mem hw)
    have hfirst : replaceAll pair.1 pair.2 text = mapWords p (swap pair) text :=
      replaceAll_eq_swap hold fun w hw => htext w hw pair List.mem_cons_self
    have hlater : ∀ w ∈ words p (mapWords p (swap pair) text), ∀ other ∈ pairs,
        other.1 <:+: w → w = other.1 := by
      rw [words_mapWords hswap]
      intro w hw other hother hwithin
      obtain ⟨v, hv, rfl⟩ := List.mem_map.1 hw
      unfold swap at hwithin ⊢
      split_ifs at hwithin ⊢ with hsame
      · refine (hwithin.eq_of_length ?_).symm
        rw [(hlength other hother).1, hnewLength]
      · exact htext v hv other (List.mem_cons_of_mem _ hother) hwithin
    rw [replaceEach, List.foldl_cons, hfirst]
    refine (ih hpairs hlength hlater).trans ?_
    rw [mapWords_mapWords hswap]
    rfl

/-- A word that is none of those renamed stays. -/
theorem swapEach_of_not_mem {pairs : List (List α × List α)} {w : List α}
    (h : w ∉ pairs.map Prod.fst) : swapEach pairs w = w := by
  induction pairs with
  | nil => rfl
  | cons pair pairs ih =>
    rw [List.map_cons, List.mem_cons, not_or] at h
    have hswap : swap pair w = w := if_neg h.1
    rw [swapEach, List.foldl_cons, hswap]
    exact ih h.2

/-- A word that is renamed once is not renamed again, if no other word is renamed to one of
those. -/
theorem swapEach_of_mem {pairs : List (List α × List α)} {f : List α → List α}
    (hnodup : (pairs.map Prod.fst).Nodup) (hf : ∀ pair ∈ pairs, pair.2 = f pair.1)
    (hfresh : ∀ w ∈ pairs.map Prod.fst, f w ∈ pairs.map Prod.fst → f w = w) {w : List α}
    (hw : w ∈ pairs.map Prod.fst) : swapEach pairs w = f w := by
  induction pairs with
  | nil => exact absurd hw List.not_mem_nil
  | cons pair pairs ih =>
    rw [List.map_cons] at hnodup hfresh hw
    obtain ⟨hnot, hnodup⟩ := List.nodup_cons.1 hnodup
    obtain ⟨hpair, hf⟩ := List.forall_mem_cons.1 hf
    rw [swapEach, List.foldl_cons]
    by_cases hsame : w = pair.1
    · have hswap : swap pair w = f w := by rw [swap, if_pos hsame, hpair, hsame]
      rw [hswap]
      refine swapEach_of_not_mem fun hmem => ?_
      have hself := hfresh w hw (List.mem_cons_of_mem _ hmem)
      rw [hself, hsame] at hmem
      exact hnot hmem
    · have hswap : swap pair w = w := if_neg hsame
      rw [hswap]
      refine ih hnodup hf (fun v hv hfv => ?_) ((List.mem_cons.1 hw).resolve_left hsame)
      exact hfresh v (List.mem_cons_of_mem _ hv) (List.mem_cons_of_mem _ hfv)

end Replace

end GenropyAsgi.Library.Words
