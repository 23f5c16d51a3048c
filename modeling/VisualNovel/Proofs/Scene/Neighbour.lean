/-
  What a node says of the nodes before and after it.  It names at most one of each, where
  several connections may end at it or leave it.

  * `Reference.Truthful`: a reference that names a node names the far end of the newest of
    its connections;
  * `Scene.Ran`: runs of editing with the scenes that they went through;
  * `Scene.Severed`: the last that happened to the connections at a side of a node is that
    some were undone;
  * `Scene.Ran.neighbours`: then the node names nobody on that side, and only then, if there
    are connections;
  * `Scene.merge_forgets`: the combiner that has lost one of its two neighbours, and with it
    the other.
-/
import VisualNovel.Proofs.Scene.Reshaping

namespace VisualNovel

namespace Reference

/-- A reference that names a node names the one at the far end of the newest connection that
    it goes by. -/
def Truthful (s : Scene) (r : Reference) : Prop :=
  ∀ k, r.node = some k → ∃ c, (r.met s).getLast? = some c ∧ s.At r.bearing.there k c

/-- Whatever becomes of a truthful reference, it stays truthful. -/
theorem Fate.truthful {linked : Prop} {s t : Scene} {id : NodeId} {r : Reference}
    (h : r.Fate linked s t id) (ht : Scene.Revised linked s t) (hlinked : r.bearing = .way → ¬linked)
    (hold : ∀ q, (id, q) ∈ s.references → q.bearing = r.bearing → q.Truthful s) :
    r.Truthful t := by
  intro k hk
  cases h with
  | fresh unmet node =>
    rcases node with node | ⟨hl, hway⟩
    · cases node.symm.trans hk
    · exact absurd hl (hlinked hway)
  | kept old like met node =>
    rename_i q
    obtain ⟨c, hlast, hfar⟩ := hold q old like.bearing.symm k (node ▸ hk)
    rw [← met] at hlast
    have hct := (mem_met.1 (List.mem_of_getLast? hlast)).1
    rw [met] at hlast
    have hcs := (mem_met.1 (List.mem_of_getLast? hlast)).1
    rw [met, like.bearing]
    exact ⟨c, hlast, ht.far hcs hct hfar⟩
  | forgot _ _ _ _ _ node => cases node.symm.trans hk
  | told _ _ _ met node far =>
    obtain rfl := Option.some.inj (node.symm.trans hk)
    rw [met, List.getLast?_append]
    exact ⟨_, rfl, far⟩

end Reference

namespace Node

/-- The references of a node to its neighbours go by the connections on that side of it. -/
theorem meets_iff_here {n : Node} {r : Reference} (hr : r ∈ n.references) (hb : r.bearing ≠ .way)
    {c : Connection} : r.Meets c ↔ r.bearing.here n c := by
  rcases List.mem_cons.1 hr with rfl | hr
  · exact .rfl
  by_cases hc : ∃ choices, n.content = .choice choices
  · obtain ⟨choices, hc⟩ := hc
    rw [ways_of_choice hc] at hr
    obtain ⟨d, -, rfl⟩ := List.mem_map.1 hr
    exact absurd rfl hb
  · rw [ways_of_other fun choices h => hc ⟨choices, h⟩] at hr
    obtain rfl := List.mem_singleton.1 hr
    exact .rfl

end Node

namespace Scene

theorem Distinct.at_here_iff {s : Scene} (h : s.Distinct) {id : NodeId} {r : Reference}
    (href : (id, r) ∈ s.references) (hb : r.bearing ≠ .way) {c : Connection} :
    s.At r.bearing.here id c ↔ r.Meets c := by
  obtain ⟨n, hn, rfl, hr⟩ := mem_references.1 href
  rw [Node.meets_iff_here hr hb]
  constructor
  · rintro ⟨m, hm, hid, hmc⟩
    exact h.eq_of_id hm hn hid ▸ hmc
  · exact fun hc => ⟨n, hn, rfl, hc⟩

/-! ## Runs -/

/-- The scenes that come of an empty one by calls that each meet a condition, with those
    that came before, latest first. -/
inductive Ran (ok : Scene → Edit → Prop) : List Scene → Scene → Prop where
  | empty (name : String) : Ran ok [] { name }
  | edit {past : List Scene} {s : Scene} {e : Edit} : Ran ok past s → ok s e →
    Ran ok (s :: past) (s.edit e)

theorem Ran.edited {ok : Scene → Edit → Prop} {past : List Scene} {s : Scene}
    (h : Ran ok past s) : s.Edited ok := by
  induction h with
  | empty name => exact .empty name
  | edit _ he ih => exact ih.edit he

/-- Each scene that comes of editing comes of a run. -/
theorem Edited.ran {ok : Scene → Edit → Prop} {s : Scene} (h : s.Edited ok) :
    ∃ past, Ran ok past s := by
  induction h with
  | empty name => exact ⟨[], .empty name⟩
  | edit _ he ih =>
    obtain ⟨past, hran⟩ := ih
    exact ⟨_, hran.edit he⟩

theorem Edited.branched {ok : Scene → Edit → Prop} {s : Scene} (h : s.Edited ok) : s.Branched := by
  induction h with
  | empty name => exact List.forall_mem_nil _
  | edit _ _ ih => exact ih.edit _

/-- The last call that changed which connections are on a side of a node undid some of
    them. -/
def Severed (side : Node → Connection → Prop) (id : NodeId) : List Scene → Scene → Prop
  | [], _ => False
  | s :: past, t =>
    (∃ c ∈ s.connections, c ∉ t.connections ∧ s.At side id c) ∨
      (Severed side id past s ∧ ∀ c ∈ t.connections, t.At side id c → c ∈ s.connections)

/-- A reference of a node names nobody exactly if it goes by no connections or if that side
    of the node was severed. -/
def Silent (past : List Scene) (s : Scene) (id : NodeId) (r : Reference) : Prop :=
  r.node = none ↔ r.met s = [] ∨ Severed r.bearing.here id past s

theorem silent_of_fate {linked : Prop} {past : List Scene} {s t : Scene} {id : NodeId}
    {r : Reference} (h : r.Fate linked s t id) (hs : s.Distinct) (ht : t.Distinct)
    (href : (id, r) ∈ t.references) (hb : r.bearing ≠ .way)
    (hold : ∀ q, (id, q) ∈ s.references → q.bearing = r.bearing → Silent past s id q) :
    Silent (s :: past) t id r := by
  have hnew : ∀ c, c ∈ r.met t ↔ c ∈ t.connections ∧ t.At r.bearing.here id c := by
    intro c
    rw [Reference.mem_met, ht.at_here_iff href hb]
  have hwas : ∀ {q : Reference}, (id, q) ∈ s.references → r.Like q →
      ∀ c, c ∈ q.met s ↔ c ∈ s.connections ∧ s.At r.bearing.here id c := by
    intro q hq hlike c
    rw [Reference.mem_met, hlike.bearing, hs.at_here_iff hq (hlike.bearing ▸ hb)]
  cases h with
  | fresh unmet node => exact iff_of_true (node.resolve_right fun h => hb h.2) (.inl unmet)
  | kept old like met node =>
    rename_i q
    have hsevered : Severed r.bearing.here id (s :: past) t ↔ Severed r.bearing.here id past s := by
      constructor
      · rintro (⟨c, hc, hgone, hat⟩ | h)
        · have hct := (hnew c).1 (met ▸ (hwas old like c).2 ⟨hc, hat⟩)
          exact absurd hct.1 hgone
        · exact h.1
      · exact fun h => .inr ⟨h, fun c hc hat =>
          ((hwas old like c).1 (met ▸ (hnew c).2 ⟨hc, hat⟩)).1⟩
    have hq := hold q old like.bearing.symm
    unfold Silent at hq ⊢
    rw [node, met, hsevered, hq, like.bearing]
  | forgot old like was gone met node =>
    have hwas := (hwas old like _).1 was
    exact iff_of_true node (.inr (.inl ⟨_, hwas.1, gone, hwas.2⟩))
  | told old like new met node far =>
    refine iff_of_false (by simp [node]) ?_
    rintro (hnil | ⟨c, hc, hgone, hat⟩ | ⟨-, hold⟩)
    · simp [met] at hnil
    · have hct := (hnew c).1 (met ▸ List.mem_append_left _ ((hwas old like c).2 ⟨hc, hat⟩))
      exact hgone hct.1
    · have hct := (hnew _).1 (met ▸ List.mem_append_right _ List.mem_cons_self)
      exact new (hold _ hct.1 hct.2)

/-- References to neighbours are truthful, and silent only if their node was severed. -/
theorem Ran.recalled {past : List Scene} {s : Scene} (h : Ran Sound past s) {id : NodeId}
    {r : Reference} (href : (id, r) ∈ s.references) (hb : r.bearing ≠ .way) :
    Silent past s id r ∧ r.Truthful s := by
  induction h generalizing r with
  | empty name => cases href
  | edit hran he ih =>
    have hs := hran.edited.intact
    have ht := hs.edit he.1 he.2
    have hrevised := hs.revised_edit hran.edited.branched he
    have hfate := hrevised.fate href
    have hold := fun q (hq : (id, q) ∈ _) (hlike : q.bearing = r.bearing) => ih hq (hlike ▸ hb)
    constructor
    · exact silent_of_fate hfate hs.isDistinct ht.isDistinct href hb
        fun q hq hlike => (hold q hq hlike).1
    · exact hfate.truthful hrevised (fun hway => absurd hway hb)
        fun q hq hlike => (hold q hq hlike).2

/-- What a node says of its neighbours on one side. -/
structure Recalls (past : List Scene) (s : Scene) (side other : Node → Connection → Prop)
    (n : Node) (neighbour : Option NodeId) : Prop where
  none_iff : neighbour = none ↔
    (∀ c ∈ s.connections, ¬side n c) ∨ Severed side n.id past s
  /-- A neighbour that is named is at the other end of the newest connection. -/
  named : ∀ id, neighbour = some id → ∃ before c after,
    s.connections = before ++ c :: after ∧ side n c ∧ (∀ d ∈ after, ¬side n d) ∧
      ∃ m ∈ s.nodes, m.id = id ∧ other m c

/-- After any run of editing, a node names the neighbour on a side that its newest connection
    there leads to; it names none if there is no connection, or if the last that happened
    there is that connections were undone. -/
theorem Ran.neighbours {past : List Scene} {s : Scene} (h : Ran Sound past s) {n : Node}
    (hn : n ∈ s.nodes) :
    Recalls past s Node.Receives Node.Sends n n.previous ∧
      ((∀ choices, n.content ≠ .choice choices) →
        Recalls past s Node.Sends Node.Receives n n.next) := by
  have key : ∀ r ∈ n.references, r.bearing ≠ .way →
      Recalls past s r.bearing.here r.bearing.there n r.node := by
    intro r hr hb
    obtain ⟨hsilent, htruthful⟩ := h.recalled (mem_references.2 ⟨n, hn, rfl, hr⟩) hb
    constructor
    · have hnil : r.met s = [] ↔ ∀ c ∈ s.connections, ¬r.bearing.here n c := by
        simp [Reference.met, List.filter_eq_nil_iff, Node.meets_iff_here hr hb]
      rw [← hnil]
      exact hsilent
    · intro id hid
      obtain ⟨c, hlast, hfar⟩ := htruthful id hid
      obtain ⟨older, hmet⟩ := List.getLast?_eq_some_iff.1 hlast
      obtain ⟨xs, ys, hs, -, hys⟩ := List.filter_eq_append_iff.1 hmet
      obtain ⟨as, bs, rfl, -, hc, hbs⟩ := List.filter_eq_cons_iff.1 hys
      refine ⟨xs ++ as, c, bs, by simp [hs], ?_, fun d hd => ?_, hfar⟩
      · simpa [Node.meets_iff_here hr hb] using hc
      · simpa [Node.meets_iff_here hr hb] using List.filter_eq_nil_iff.1 hbs d hd
  refine ⟨key _ List.mem_cons_self (by simp), fun hother => ?_⟩
  refine key ⟨.forth, n.next, n.outputs.map Connector.id⟩ ?_ (by simp)
  rw [Node.references_of_other hother]
  exact List.mem_cons_of_mem _ List.mem_cons_self

/-- A combiner of two entries. -/
def merge : Scene :=
  (((({ name := "Merge" } : Scene).edit (.addNode (.state .enter) ⟨⟨0⟩⟩ fun _ => ⟨⟨1⟩⟩)).edit
    (.addNode (.state .enter) ⟨⟨2⟩⟩ fun _ => ⟨⟨3⟩⟩)).edit
    (.addCombiner 2 ⟨⟨4⟩⟩ fun i => ⟨⟨.ofNat 128 (5 + i)⟩⟩)).edit (.connect ⟨⟨1⟩⟩ ⟨⟨5⟩⟩) |>.edit
    (.connect ⟨⟨3⟩⟩ ⟨⟨7⟩⟩)

theorem merge_ran : ∃ past, Ran Sound past merge := by
  refine Edited.ran ?_
  refine (((Edited.empty _).edit ⟨?_, trivial⟩).edit ⟨?_, trivial⟩).edit ⟨?_, trivial⟩ |>.edit
    ⟨?_, trivial⟩ |>.edit ⟨?_, trivial⟩
  all_goals exact ⟨by decide, by decide⟩

/-- The combiner names the entry that it was joined to last. -/
theorem neighbours_merge :
    ∃ past n, Ran Sound past merge ∧ merge.node? ⟨⟨4⟩⟩ = some n ∧ n.previous = some ⟨⟨2⟩⟩ ∧
      Recalls past merge Node.Receives Node.Sends n n.previous := by
  obtain ⟨past, h⟩ := merge_ran
  have hn : merge.node? ⟨⟨4⟩⟩ = some _ := rfl
  exact ⟨past, _, h, hn, rfl, (h.neighbours (List.mem_of_find?_eq_some hn)).1⟩

/-- When one of the entries is cut off, the combiner forgets both. -/
theorem merge_forgets :
    ∃ s n, s = merge.edit (.disconnect ⟨⟨7⟩⟩) ∧ s.Edited Sound ∧ n ∈ s.nodes ∧
      n.previous = none ∧ ∃ c ∈ s.connections, n.Receives c ∧ ∃ m ∈ s.nodes, m.Sends c := by
  obtain ⟨past, h⟩ := merge_ran
  have hn : (merge.edit (.disconnect ⟨⟨7⟩⟩)).node? ⟨⟨4⟩⟩ = some _ := rfl
  refine ⟨_, _, rfl, h.edited.edit ⟨⟨by decide, by decide⟩, trivial⟩,
    List.mem_of_find?_eq_some hn, rfl, ⟨⟨⟨1⟩⟩, ⟨⟨5⟩⟩⟩, by decide, by decide, by decide⟩

end Scene

end VisualNovel
