import DicePool.Proofs.Expression.Grammar

/-!
# The greedy reading

A part of a reading can compete with a later part for the same tokens: a boost with the sign, an
evaluator with the check of the total, the argument of the last method with either. Giving these
tokens to the earlier part makes a reading greedy, and two greedy readings of the same tokens agree
part by part.
-/

namespace DicePool.Grammar

/-- A method before the letters of another leaves nothing out. -/
theorem Item.greedy_of_starts_letters {i : Item} {after : List Token} (h : i.WellFormed)
    (ha : Starts methodLetters after) : i.Greedy after := by
  obtain ⟨t, ht, hl⟩ := ha
  obtain ⟨after, rfl⟩ : ∃ ts, after = t :: ts := ⟨_, List.eq_cons_of_mem_head? ht⟩
  constructor
  · intro _ hs
    cases hn : i.amount? with
    | none =>
      rw [hn] at hs
      exact notMem_operators_of_mem_letters hl _ (starts_cons.mp hs)
    | some n =>
      rw [hn] at hs
      have operator := starts_cons.mp hs
      rw [h.2.2 n hn] at operator
      exact integer_notMem_operators _ operator
  · intro _ hs
    rw [starts_cons, List.mem_singleton] at hs
    rw [hs] at hl
    revert hl
    decide

/-- Only the last method of a row can leave something out, and only its whole argument. -/
theorem greedy_or_bare {rest : List Token} {items : List Item}
    (h : EachBefore rest Item.Fits items) (hr : ¬Starts [.integer] rest) :
    EachBefore rest Item.Greedy items ∨
      ∃ (init : List Item) (l : Token), items = init ++ [⟨l, none, none⟩] ∧
        Starts (operators l.kind) rest ∧ EachBefore (l :: rest) Item.Greedy init := by
  induction items with
  | nil => exact .inl trivial
  | cons i items ih =>
    cases items with
    | nil =>
      by_cases hg : i.Greedy rest
      · exact .inl ⟨hg, trivial⟩
      · obtain ⟨l, operator?, amount?⟩ := i
        right
        have left : operator? = none ∧ Starts (operators l.kind) (amount?.toList ++ rest) := by
          by_contra hne
          exact hg ⟨fun ho hs ↦ hne ⟨ho, hs⟩, fun _ ↦ hr⟩
        obtain ⟨rfl, hs⟩ := left
        cases amount? with
        | none => exact ⟨[], l, rfl, hs, trivial⟩
        | some n =>
          have operator := starts_cons.mp hs
          rw [h.1.1.2.2 n rfl] at operator
          exact absurd operator (integer_notMem_operators _)
    | cons j items =>
      have next : Starts methodLetters ((j :: items).flatMap Item.tokens ++ rest) :=
        starts_cons.mpr h.2.1.1.1
      have greedy := Item.greedy_of_starts_letters h.1.1 next
      obtain all | ⟨init, l, same, hs, hi⟩ := ih h.2
      · exact .inl ⟨greedy, all⟩
      · right
        refine ⟨i :: init, l, by rw [same, List.cons_append], hs, ?_, hi⟩
        rw [same, List.flatMap_append, List.append_assoc] at greedy
        exact greedy

namespace Reading

namespace WellFormed

variable {r : Reading} {kinds : List TokenKind}

/-- Where no letters follow the evaluator there are no methods. -/
theorem methods_eq_nil (h : r.WellFormed) (hd : ∀ k ∈ kinds, k ∉ methodLetters)
    (hs : Starts kinds r.afterEvaluator) : r.methods = [] := by
  have methods := h.methods
  by_contra hne
  obtain ⟨i, items, hm⟩ := List.exists_cons_of_ne_nil hne
  rw [hm] at methods
  rw [afterEvaluator, hm] at hs
  exact hd _ (starts_cons.mp hs) methods.1.1.1

/-- Where no comparison follows the methods there is no check. -/
theorem check_eq_none (h : r.WellFormed) (hd : ∀ k ∈ kinds, k ∉ comparisons)
    (hs : Starts kinds r.afterMethods) : r.check? = none := by
  by_contra hne
  obtain ⟨o, hc⟩ := Option.ne_none_iff_exists'.mp hne
  rw [afterMethods, hc] at hs
  exact hd _ (starts_cons.mp hs) (h.check o hc).1

/-- Where an arithmetic operator follows the boost, only a sign is left. -/
theorem eq_nil_of_starts_arithmetic (h : r.WellFormed) (hs : Starts arithmetic r.afterBoost) :
    r.assigned = [] ∧ r.evaluator? = none ∧ r.methods = [] ∧ r.check? = none := by
  have assigned : ∀ k ∈ arithmetic, k ∉ assignedSigns := by decide
  have compared : ∀ k ∈ arithmetic, k ∉ comparisons := by decide
  have lettered : ∀ k ∈ arithmetic, k ∉ methodLetters := by decide
  have ha : r.assigned = [] := by
    by_contra hne
    obtain ⟨o, os, ho⟩ := List.exists_cons_of_ne_nil hne
    rw [afterBoost, ho] at hs
    exact assigned _ (starts_cons.mp hs) (h.assigned o (by simp [ho])).1
  rw [afterBoost, ha] at hs
  have he : r.evaluator? = none := by
    by_contra hne
    obtain ⟨e, he⟩ := Option.ne_none_iff_exists'.mp hne
    rw [List.flatMap_nil, List.nil_append, afterAssigned, he] at hs
    exact compared _ (starts_cons.mp hs) (h.evaluator e he).1
  rw [List.flatMap_nil, List.nil_append, afterAssigned, he] at hs
  have hm := h.methods_eq_nil lettered hs
  rw [Option.toList_none, List.flatMap_nil, List.nil_append, afterEvaluator, hm] at hs
  exact ⟨ha, he, hm, h.check_eq_none compared hs⟩

/-- Where a comparison follows the methods it is the check. -/
theorem exists_check (h : r.WellFormed) (hs : Starts comparisons r.afterMethods) :
    ∃ o, r.check? = some o := by
  by_contra hne
  have none : r.check? = none := by
    rw [← Option.not_isSome_iff_eq_none, Option.isSome_iff_exists]
    exact hne
  rw [afterMethods, none] at hs
  exact h.not_starts_afterCheck (by decide) hs

/-- Only a boost, an evaluator and the arguments of methods compete with later parts. -/
theorem greedy (h : r.WellFormed)
    (boost : r.boost? = none → ¬StartsOperation arithmetic r.afterBoost)
    (evaluator : r.evaluator? = none → ¬Starts comparisons r.afterEvaluator)
    (arguments : EachBefore r.afterMethods Item.Greedy r.methods) : r.Greedy where
  boost := boost
  assigned := fun hs ↦ h.not_starts_afterAssigned hs.starts
  evaluator := evaluator
  threshold := fun _ _ _ ↦ h.not_starts_afterEvaluator (by decide)
  arguments := arguments
  methods := h.not_starts_afterMethods (by decide)
  check := fun _ hs ↦ h.not_starts_afterCheck (by decide) hs.starts

end WellFormed

private theorem of_none (kinds : List TokenKind) : ∀ o ∈ (none : Option Operation), o.Of kinds := by
  rintro _ ⟨⟩

/-- The sign at the end is read as a boost where it can be one. -/
private theorem exists_greedy_of_boost {r : Reading} (h : r.WellFormed) (hb : r.boost? = none)
    (hs : Starts arithmetic r.afterBoost) : ∃ r', GreedyReading r.tokens r' := by
  obtain ⟨ha, he, hm, hc⟩ := h.eq_nil_of_starts_arithmetic hs
  cases hsign : r.sign? with
  | none =>
    simp [afterBoost, afterAssigned, afterEvaluator, afterMethods, afterCheck, optional, ha, he, hm,
      hc, hsign] at hs
  | some o =>
    have kinds : ∀ k ∈ signs, k ∈ arithmetic := by decide
    have of := h.sign o hsign
    let r' : Reading := { r with boost? := some o, sign? := none }
    have wf : r'.WellFormed :=
      { h with
        boost := by
          rintro _ ⟨⟩
          exact ⟨kinds _ of.1, of.2⟩
        methods := by
          change EachBefore _ _ r.methods
          rw [hm]
          trivial
        sign := of_none signs }
    refine ⟨r', wf, wf.greedy ?_ ?_ ?_, ?_⟩
    · rintro ⟨⟩
    · intro _
      simp [r', afterEvaluator, afterMethods, afterCheck, optional, hm, hc]
    · change EachBefore _ _ r.methods
      rw [hm]
      trivial
    · simp [r', tokens, afterSides, afterBoost, afterAssigned, afterEvaluator, afterMethods,
        afterCheck, optional, ha, he, hm, hc, hb, hsign]

/-- The check of the total is read as an evaluator where it can be one. -/
private theorem exists_greedy_of_evaluator {r : Reading} (h : r.WellFormed)
    (hb : r.boost? = none → ¬StartsOperation arithmetic r.afterBoost) (he : r.evaluator? = none)
    (hs : Starts comparisons r.afterEvaluator) : ∃ r', GreedyReading r.tokens r' := by
  have hm := h.methods_eq_nil (by decide) hs
  rw [afterEvaluator, hm] at hs
  obtain ⟨o, hc⟩ := h.exists_check hs
  have of := h.check o hc
  let r' : Reading := { r with evaluator? := some ⟨o.operator, some o.amount⟩, check? := none }
  have same : r'.afterBoost = r.afterBoost := by
    simp [r', afterBoost, afterAssigned, afterEvaluator, afterMethods, afterCheck, optional,
      Evaluator.tokens, Operation.tokens, he, hm, hc]
  have wf : r'.WellFormed :=
    { h with
      evaluator := by
        rintro _ ⟨⟩
        refine ⟨of.1, ?_⟩
        rintro _ ⟨⟩
        exact of.2
      methods := by
        change EachBefore _ _ r.methods
        rw [hm]
        trivial
      check := of_none comparisons }
  refine ⟨r', wf, wf.greedy ?_ ?_ ?_, ?_⟩
  · rw [same]
    exact hb
  · rintro ⟨⟩
  · change EachBefore _ _ r.methods
    rw [hm]
    trivial
  · rw [tokens, afterSides, same]
    rfl

/-- An operation after a last method without argument is read as its argument. -/
private theorem exists_greedy_of_moved {r : Reading} (h : r.WellFormed)
    (hb : r.boost? = none → ¬StartsOperation arithmetic r.afterBoost) {init : List Item} {l : Token}
    (hm : r.methods = init ++ [⟨l, none, none⟩])
    (hi : EachBefore (l :: r.afterMethods) Item.Greedy init) {o : Operation}
    (of : o.Of (operators l.kind)) {check? sign? : Option Operation}
    (hc : ∀ o ∈ check?, o.Of comparisons) (hsign : ∀ o ∈ sign?, o.Of signs)
    (same : r.afterMethods = o.tokens ++ (optional check? ++ optional sign?)) :
    ∃ r', GreedyReading r.tokens r' := by
  have fits := h.methods
  rw [hm, eachBefore_append] at fits
  obtain ⟨before, ⟨letters, _, _⟩, _⟩ := And.imp_right And.left fits
  let last : Item := ⟨l, some o.operator, some o.amount⟩
  let r' : Reading := { r with methods := init ++ [last], check? := check?, sign? := sign? }
  have row : [last].flatMap Item.tokens ++ r'.afterMethods = l :: r.afterMethods := by
    rw [same]
    rfl
  have afterBoost : r'.afterBoost = r.afterBoost := by
    have afterEvaluator : r'.afterEvaluator = r.afterEvaluator := by
      change (init ++ [last]).flatMap Item.tokens ++ r'.afterMethods = _
      rw [List.flatMap_append, List.append_assoc, row, Reading.afterEvaluator, hm,
        List.flatMap_append, List.append_assoc]
      rfl
    rw [Reading.afterBoost, Reading.afterAssigned, afterEvaluator]
    rfl
  have wf : r'.WellFormed :=
    { h with
      methods := by
        refine eachBefore_append.mpr ⟨?_, ⟨⟨letters, ?_, ?_⟩, ?_⟩, trivial⟩
        · rw [row]
          exact before
        · rintro _ ⟨⟩
          exact of.1
        · rintro _ ⟨⟩
          exact of.2
        · rintro _ ⟨⟩
      check := hc
      sign := hsign }
  refine ⟨r', wf, wf.greedy ?_ ?_ ?_, ?_⟩
  · rw [afterBoost]
    exact hb
  · intro _ hs
    have nil := wf.methods_eq_nil (by decide) hs
    exact absurd nil (List.append_ne_nil_of_right_ne_nil init (List.cons_ne_nil last []))
  · refine eachBefore_append.mpr ⟨?_, ⟨?_, ?_⟩, trivial⟩
    · rw [row]
      exact hi
    · rintro ⟨⟩
    · rintro ⟨⟩
  · rw [tokens, afterSides, afterBoost]
    rfl

/-- The check of the total or the sign is read as the argument of the last method where it can be
one. -/
private theorem exists_greedy_of_argument {r : Reading} (h : r.WellFormed)
    (hb : r.boost? = none → ¬StartsOperation arithmetic r.afterBoost) {init : List Item} {l : Token}
    (hm : r.methods = init ++ [⟨l, none, none⟩]) (hs : Starts (operators l.kind) r.afterMethods)
    (hi : EachBefore (l :: r.afterMethods) Item.Greedy init) :
    ∃ r', GreedyReading r.tokens r' := by
  cases hc : r.check? with
  | some o =>
    have of := h.check o hc
    rw [afterMethods, hc] at hs
    refine exists_greedy_of_moved h hb hm hi ⟨starts_cons.mp hs, of.2⟩ (of_none comparisons)
      h.sign ?_
    rw [afterMethods, hc]
    rfl
  | none =>
    cases hsign : r.sign? with
    | some o =>
      have of := h.sign o hsign
      rw [afterMethods, afterCheck, hc, hsign] at hs
      refine exists_greedy_of_moved h hb hm hi ⟨starts_cons.mp hs, of.2⟩ (of_none comparisons)
        (of_none signs) ?_
      rw [afterMethods, afterCheck, hc, hsign]
      rfl
    | none =>
      rw [afterMethods, afterCheck, hc, hsign] at hs
      exact absurd hs not_starts_nil

/-- Every sentence has a greedy reading, whatever reading made it a sentence. -/
theorem exists_greedyReading {ts : List Token} (h : Sentence ts) : ∃ r, GreedyReading ts r := by
  obtain ⟨r, wf, rfl⟩ := h
  by_cases hb : r.boost? = none ∧ StartsOperation arithmetic r.afterBoost
  · exact exists_greedy_of_boost wf hb.1 hb.2.starts
  rw [not_and] at hb
  by_cases he : r.evaluator? = none ∧ Starts comparisons r.afterEvaluator
  · exact exists_greedy_of_evaluator wf hb he.1 he.2
  rw [not_and] at he
  have integer : ¬Starts [.integer] r.afterMethods := wf.not_starts_afterMethods (by decide)
  obtain greedy | ⟨init, l, hm, hs, hi⟩ := greedy_or_bare wf.methods integer
  · exact ⟨r, wf, wf.greedy hb he greedy, rfl⟩
  · exact exists_greedy_of_argument wf hb hm hs hi

private theorem operation_unique {o o' : Operation} {rest rest' : List Token}
    (same : o.tokens ++ rest = o'.tokens ++ rest') : o = o' ∧ rest = rest' := by
  obtain ⟨a, n⟩ := o
  obtain ⟨a', n'⟩ := o'
  cases same
  exact ⟨rfl, rfl⟩

private theorem optional_unique {kinds : List TokenKind} {o? o'? : Option Operation}
    {rest rest' : List Token} (same : optional o? ++ rest = optional o'? ++ rest')
    (h : ∀ o ∈ o?, o.Of kinds) (h' : ∀ o ∈ o'?, o.Of kinds)
    (hg : o? = none → ¬StartsOperation kinds rest)
    (hg' : o'? = none → ¬StartsOperation kinds rest') : o? = o'? ∧ rest = rest' := by
  cases o? with
  | none =>
    cases o'? with
    | none => exact ⟨rfl, same⟩
    | some o' => exact absurd ⟨o', h' o' rfl, rest', same.symm⟩ (hg rfl)
  | some o =>
    cases o'? with
    | none => exact absurd ⟨o, h o rfl, rest, same⟩ (hg' rfl)
    | some o' =>
      have tokens : o.tokens ++ rest = o'.tokens ++ rest' := same
      obtain ⟨rfl, rfl⟩ := operation_unique tokens
      exact ⟨rfl, rfl⟩

private theorem assigned_unique {os os' : List Operation} {rest rest' : List Token}
    (same : os.flatMap Operation.tokens ++ rest = os'.flatMap Operation.tokens ++ rest')
    (h : ∀ o ∈ os, o.Of assignedSigns) (h' : ∀ o ∈ os', o.Of assignedSigns)
    (hg : ¬StartsOperation assignedSigns rest) (hg' : ¬StartsOperation assignedSigns rest') :
    os = os' ∧ rest = rest' := by
  induction os generalizing os' with
  | nil =>
    cases os' with
    | nil => exact ⟨rfl, same⟩
    | cons o' os' => exact absurd ⟨o', h' o' List.mem_cons_self, _, same.symm⟩ hg
  | cons o os ih =>
    cases os' with
    | nil => exact absurd ⟨o, h o List.mem_cons_self, _, same⟩ hg'
    | cons o' os' =>
      have tokens : o.tokens ++ (os.flatMap Operation.tokens ++ rest) =
          o'.tokens ++ (os'.flatMap Operation.tokens ++ rest') := same
      obtain ⟨rfl, tail⟩ := operation_unique tokens
      obtain ⟨rfl, rest⟩ := ih tail (fun o ho ↦ h o (List.mem_cons_of_mem _ ho))
        (fun o ho ↦ h' o (List.mem_cons_of_mem _ ho))
      exact ⟨rfl, rest⟩

private theorem token_unique {kinds : List TokenKind} {t? t'? : Option Token}
    {rest rest' : List Token} (same : t?.toList ++ rest = t'?.toList ++ rest')
    (h : ∀ t ∈ t?, t.kind ∈ kinds) (h' : ∀ t ∈ t'?, t.kind ∈ kinds)
    (hg : t? = none → ¬Starts kinds rest) (hg' : t'? = none → ¬Starts kinds rest') :
    t? = t'? ∧ rest = rest' := by
  cases t? with
  | none =>
    cases t'? with
    | none => exact ⟨rfl, same⟩
    | some t' =>
      have starts : Starts kinds rest := by
        rw [show rest = t' :: rest' from same]
        exact starts_cons.mpr (h' t' rfl)
      exact absurd starts (hg rfl)
  | some t =>
    cases t'? with
    | none =>
      have starts : Starts kinds rest' := by
        rw [show rest' = t :: rest from same.symm]
        exact starts_cons.mpr (h t rfl)
      exact absurd starts (hg' rfl)
    | some t' =>
      cases same
      exact ⟨rfl, rfl⟩

private theorem amount_unique {n? n'? : Option Token} {rest rest' : List Token}
    (same : n?.toList ++ rest = n'?.toList ++ rest') (h : ∀ n ∈ n?, n.kind = .integer)
    (h' : ∀ n ∈ n'?, n.kind = .integer) (hg : n? = none → ¬Starts [.integer] rest)
    (hg' : n'? = none → ¬Starts [.integer] rest') : n? = n'? ∧ rest = rest' :=
  token_unique same (fun n hn ↦ List.mem_singleton.mpr (h n hn))
    (fun n hn ↦ List.mem_singleton.mpr (h' n hn)) hg hg'

private theorem methods_unique {items items' : List Item} {rest rest' : List Token}
    (same : items.flatMap Item.tokens ++ rest = items'.flatMap Item.tokens ++ rest')
    (h : EachBefore rest Item.Fits items) (h' : EachBefore rest' Item.Fits items')
    (hg : EachBefore rest Item.Greedy items) (hg' : EachBefore rest' Item.Greedy items')
    (he : ¬Starts methodLetters rest) (he' : ¬Starts methodLetters rest') :
    items = items' ∧ rest = rest' := by
  induction items generalizing items' with
  | nil =>
    cases items' with
    | nil => exact ⟨rfl, same⟩
    | cons i' items' =>
      rw [show rest = _ from same] at he
      exact absurd (starts_cons.mpr h'.1.1.1) he
  | cons i items ih =>
    cases items' with
    | nil =>
      rw [show rest' = _ from same.symm] at he'
      exact absurd (starts_cons.mpr h.1.1.1) he'
    | cons i' items' =>
      obtain ⟨l, operator?, amount?⟩ := i
      obtain ⟨l', operator'?, amount'?⟩ := i'
      simp only [List.flatMap_cons, Item.tokens, Item.argument, List.cons_append, List.append_assoc,
        List.cons.injEq] at same
      obtain ⟨rfl, argument⟩ := same
      obtain ⟨rfl, amount⟩ := token_unique argument h.1.1.2.1 h'.1.1.2.1 hg.1.1 hg'.1.1
      obtain ⟨rfl, tail⟩ := amount_unique amount h.1.1.2.2 h'.1.1.2.2 hg.1.2 hg'.1.2
      obtain ⟨rfl, rest⟩ := ih tail h.2 h'.2 hg.2 hg'.2
      exact ⟨rfl, rest⟩

private theorem evaluator_unique {e? e'? : Option Evaluator} {rest rest' : List Token}
    (same : e?.toList.flatMap Evaluator.tokens ++ rest =
      e'?.toList.flatMap Evaluator.tokens ++ rest')
    (h : ∀ e ∈ e?, e.WellFormed) (h' : ∀ e ∈ e'?, e.WellFormed)
    (hg : e? = none → ¬Starts comparisons rest) (hg' : e'? = none → ¬Starts comparisons rest')
    (hn : ∀ e ∈ e?, e.amount? = none → ¬Starts [.integer] rest)
    (hn' : ∀ e ∈ e'?, e.amount? = none → ¬Starts [.integer] rest') : e? = e'? ∧ rest = rest' := by
  cases e? with
  | none =>
    cases e'? with
    | none => exact ⟨rfl, same⟩
    | some e' =>
      rw [show rest = _ from same] at hg
      exact absurd (starts_cons.mpr (h' e' rfl).1) (hg rfl)
  | some e =>
    cases e'? with
    | none =>
      rw [show rest' = _ from same.symm] at hg'
      exact absurd (starts_cons.mpr (h e rfl).1) (hg' rfl)
    | some e' =>
      obtain ⟨c, n?⟩ := e
      obtain ⟨c', n'?⟩ := e'
      obtain ⟨rfl, amount⟩ : c = c' ∧ n?.toList ++ rest = n'?.toList ++ rest' := by
        simpa [Evaluator.tokens] using same
      obtain ⟨rfl, rest⟩ := amount_unique amount (h _ rfl).2 (h' _ rfl).2 (hn _ rfl) (hn' _ rfl)
      exact ⟨rfl, rest⟩

/-- Tokens have at most one greedy reading. -/
theorem greedyReading_unique {ts : List Token} {r r' : Reading} (h : GreedyReading ts r)
    (h' : GreedyReading ts r') : r = r' := by
  obtain ⟨wf, g, same⟩ := h
  obtain ⟨wf', g', same'⟩ := h'
  rw [← same'] at same
  simp only [tokens, List.cons.injEq] at same
  obtain ⟨count, dice, sides, same⟩ := same
  obtain ⟨boost, same⟩ := optional_unique same wf.boost wf'.boost g.boost g'.boost
  obtain ⟨assigned, same⟩ :=
    assigned_unique same wf.assigned wf'.assigned g.assigned g'.assigned
  obtain ⟨evaluator, same⟩ := evaluator_unique same wf.evaluator wf'.evaluator g.evaluator
    g'.evaluator g.threshold g'.threshold
  obtain ⟨methods, same⟩ := methods_unique same wf.methods wf'.methods g.arguments g'.arguments
    g.methods g'.methods
  obtain ⟨check, same⟩ := optional_unique same wf.check wf'.check g.check g'.check
  rw [afterCheck, afterCheck, ← List.append_nil (optional r.sign?),
    ← List.append_nil (optional r'.sign?)] at same
  have nil : ¬StartsOperation signs [] := fun hs ↦ not_starts_nil hs.starts
  obtain ⟨sign, _⟩ := optional_unique same wf.sign wf'.sign (fun _ ↦ nil) fun _ ↦ nil
  obtain ⟨⟩ := r
  obtain ⟨⟩ := r'
  simp_all

end Reading

end DicePool.Grammar
