/-
  Scenes that are written and read again.

  * `Connector.decoder_toJson` and others: the parts of a node are read back;
  * `Content.ofMembers_tagged`, `Node.decoder_toJson`: a node is read back exactly if its fade
    time is;
  * `Scene.reads_back`: so is a scene, if all its fade times are.
-/
import Mathlib.Tactic.Simproc.ExistsAndEq
import VisualNovel.Proofs.Board.Stored
import VisualNovel.Proofs.Json.Yield
import VisualNovel.Scene.Json

namespace VisualNovel

open Decoder

attribute [local simp] Form.inOrder Form.required Form.optional bind_eq_ok map_eq_ok
  Decoder.string Decoder.boolean named_name int32_ofInt Json.ofInt32 Json.plain_ofInt
  Json.Plain.null Json.Plain.boolean Json.Plain.string

/-! ## The parts of nodes -/

theorem NodeId.decoder_toJson (source : Source) (n : NodeId) :
    decoder source n.toJson.reread = .ok n := by
  simp [decoder, toJson, filterMap, NodeId.text, Uuid.read?_text]

theorem ConnectorId.decoder_toJson (source : Source) (c : ConnectorId) :
    decoder source c.toJson.reread = .ok c := by
  simp [decoder, toJson, filterMap, ConnectorId.text, Uuid.read?_text]

theorem NodeId.plain {n : Nat} (id : NodeId) : id.toJson.Plain n := .string _

theorem ConnectorId.plain {n : Nat} (id : ConnectorId) : id.toJson.Plain n := .string _

theorem Json.plain_ofNode? {n : Nat} (id? : Option NodeId) : (Json.ofNode? id?).Plain n := by
  cases id?
  · exact .null
  · exact NodeId.plain _

theorem option_ofNode? (source : Source) (id? : Option NodeId) :
    option NodeId.decoder source (Json.ofNode? id?).reread = .ok id? := by
  cases id? with
  | none => simp [Json.ofNode?, option]
  | some id =>
    rw [Json.ofNode?, option_some, NodeId.decoder_toJson]
    simp [NodeId.toJson]

theorem Json.reading_ofNode? (id? : Option NodeId) : (Json.ofNode? id?).reread.reading? = none := by
  cases id? <;> simp [Json.ofNode?, NodeId.toJson]

attribute [local simp] NodeId.decoder_toJson ConnectorId.decoder_toJson NodeId.plain
  ConnectorId.plain Json.plain_ofNode? option_ofNode? Json.reading_ofNode?

theorem Connector.plain {n : Nat} (c : Connector) : c.toJson.Plain (n + 1) := .record (by simp)

theorem Connector.decoder_toJson (source : Source) (c : Connector) :
    decoder source c.toJson.reread = .ok c := by
  rw [toJson, Json.reread_record, decoder, Form.decoder_eq_ok ⟨rfl, by decide⟩ rfl]
  simp

theorem Connector.list_toJson (source : Source) (cs : List Connector) :
    list decoder source (.list (cs.map (Json.reread ∘ toJson))) = .ok cs :=
  list_eq_ok.2 fun c _ => decoder_toJson source c

theorem Connection.plain {n : Nat} (c : Connection) : c.toJson.Plain (n + 1) := .record (by simp)

theorem Connection.decoder_toJson (source : Source) (c : Connection) :
    decoder source c.toJson.reread = .ok c := by
  rw [toJson, Json.reread_record, decoder, Form.decoder_eq_ok ⟨rfl, by decide⟩ rfl]
  simp

theorem Line.plain {n : Nat} (l : Line) : l.toJson.Plain (n + 1) := .record (by simp)

theorem Line.decoder_toJson (source : Source) (l : Line) :
    decoder source l.toJson.reread = .ok l := by
  rw [toJson, Json.reread_record, decoder, Form.decoder_eq_ok ⟨rfl, by decide⟩ rfl]
  simp

theorem Choice.plain {n : Nat} (c : Choice) : c.toJson.Plain (n + 1) := .record (by simp)

theorem Choice.decoder_toJson (source : Source) {c : Choice} (hc : c.output < UInt64.size) :
    decoder source c.toJson.reread = .ok c := by
  rw [toJson, Json.reread_record, decoder, Form.decoder_eq_ok ⟨rfl, by decide⟩ rfl]
  simp [natural_ofInt source hc]

/-! ## Contents -/

namespace Content

/-- The fade times. -/
def fades : Content → List Binary64
  | background b => [b.fade]
  | character a => [a.fade]
  | scene s => [s.fade]
  | _ => []

/-- The positions of outputs. -/
def outputs : Content → List Nat
  | choice choices => choices.map Choice.output
  | _ => []

/-- The fade times are read back. -/
def Kept (c : Content) : Prop := ∀ x ∈ c.fades, (binary .double).Keeps Json.ofDouble x

/-- The positions of outputs have sixty-four bits. -/
def Sized (c : Content) : Prop := ∀ n ∈ c.outputs, n < UInt64.size

theorem plain_members {n : Nat} (c : Content) : ∀ m ∈ c.members, m.2.Plain (n + 2) := by
  cases c <;>
    simp [members, plain_ofDouble, Target.plain, Json.plain_list, Line.plain, Choice.plain]

/-- The members of a content as they are read, the one that says what it is first. -/
def tagged (c : Content) : List (String × Json) :=
  (tag, .string c.kindName) :: c.members.map fun m => (m.1, m.2.reread)

/-- A content is read by the kind that it says it is of. -/
theorem ofMembers_tagged (c : Content) :
    ofMembers case? (Form.texts c.tagged) =
      ofKind (cases.lookup c.kindName) (.record c.tagged) := by
  have hfilter : (Form.texts c.tagged).filter (fun m => decide (m.1 = .text tag)) =
      [(.text tag, .string c.kindName)] := by
    cases c <;> simp [Form.texts, tagged, members, tag]
  rw [ofMembers, hfilter]
  rfl

/-- A content of a kind that has a form is read by the form. -/
theorem ofMembers_form {α : Type} {form : Form α} {f : α → Content} {c : Content}
    (hkind : cases.lookup c.kindName = some (map f form.decoder)) (hform : form.Fresh)
    (hnames : (c.members.map fun m => (m.1, m.2.reread)).map Prod.fst = form.names)
    (htag : tag ∉ form.names) {c' : Content} :
    ofMembers case? (Form.texts c.tagged) = .ok c' ↔
      ∃ a, form.inOrder .buffered
        ((c.members.map fun m => (m.1, m.2.reread)).map Prod.snd).reverse = .ok a ∧ f a = c' := by
  rw [ofMembers_tagged, hkind, ofKind, map, map_eq_ok]
  simp only [tagged, Form.decoder_tagged hform hnames htag]

/-- A content is read back exactly if its fade times are. -/
theorem ofMembers_eq_ok {c : Content} (hc : c.Sized) :
    ofMembers case? (Form.texts c.tagged) = .ok c ↔ c.Kept := by
  cases c with
  | state switch =>
    rw [ofMembers_form rfl ⟨rfl, by decide⟩ rfl (by decide)]
    simp [members, Kept, fades]
  | background b =>
    rw [ofMembers_form rfl ⟨rfl, by decide⟩ rfl (by decide)]
    obtain ⟨assetKind, key, fade, looped, switch⟩ := b
    simp [backgroundForm, members, Kept, fades, binary_eq_ok (plain_ofDouble _)]
  | character a =>
    rw [ofMembers_form rfl ⟨rfl, by decide⟩ rfl (by decide)]
    obtain ⟨character, sprite, position, fade, switch⟩ := a
    simp [appearanceForm, members, Kept, fades, byte_ofInt, binary_eq_ok (plain_ofDouble _)]
  | dialogue d =>
    rw [ofMembers_form rfl ⟨rfl, by decide⟩ rfl (by decide)]
    obtain ⟨character, playerLine, lines⟩ := d
    simp [dialogueForm, members, Kept, fades, list_eq_ok, Line.decoder_toJson]
  | choice choices =>
    have hchoices : list Choice.decoder .buffered
        (.list (choices.map (Json.reread ∘ Choice.toJson))) = .ok choices :=
      list_eq_ok.2 fun c hmem =>
        Choice.decoder_toJson _ (hc c.output (List.mem_map_of_mem hmem))
    rw [ofMembers_form rfl ⟨rfl, by decide⟩ rfl (by decide)]
    simp [members, Kept, fades, hchoices]
  | event c =>
    rw [ofMembers_form rfl ⟨rfl, by decide⟩ rfl (by decide)]
    obtain ⟨target, operation, literal⟩ := c
    simp [changeForm, members, Kept, fades, Target.decoder_toJson]
  | condition c =>
    rw [ofMembers_form rfl ⟨rfl, by decide⟩ rfl (by decide)]
    obtain ⟨target, comparison, literal⟩ := c
    simp [checkForm, members, Kept, fades, Target.decoder_toJson]
  | scene s =>
    rw [ofMembers_form rfl ⟨rfl, by decide⟩ rfl (by decide)]
    obtain ⟨scene, fade⟩ := s
    simp [sceneSwitchForm, members, Kept, fades, binary_eq_ok (plain_ofDouble _)]
  | checkpoint c =>
    rw [ofMembers_form rfl ⟨rfl, by decide⟩ rfl (by decide)]
    simp [checkpointForm, members, Kept, fades]
  | combiner =>
    rw [ofMembers_tagged, show cases.lookup (kindName .combiner) = some combinerDecoder from rfl]
    simp [Json.record, ofKind, combinerDecoder, Kept, fades]

/-- In what is written of a content nothing is amiss, if its fade times are read back. -/
theorem reading_tagged {c : Content} (hc : c.Sized) (hkept : c.Kept) :
    ∀ m ∈ c.tagged, Json.reading? m.2 = none := by
  have hfade {x : Binary64} (hx : x ∈ c.fades) : (Json.ofDouble x).reread.reading? = none :=
    reading_of_binary ((binary_eq_ok (plain_ofDouble x) .streamed).2 (hkept x hx))
  refine List.forall_mem_cons.2 ⟨Json.reading_string _, ?_⟩
  rw [List.forall_mem_map]
  cases c with
  | state switch => simp [members]
  | background b => simp [members, hfade (List.mem_singleton_self _)]
  | character a =>
    simp [members, hfade (List.mem_singleton_self _),
      reading_of_integer (byte_ofInt .buffered a.position)]
  | dialogue d => simp [members, Json.reading_list, Line.toJson, Json.reading_record]
  | choice choices =>
    have hchoice (c : Choice) (hmem : c ∈ choices) : c.toJson.reread.reading? = none := by
      have houtput := natural_ofInt .buffered (hc c.output (List.mem_map_of_mem hmem))
      simp [Choice.toJson, Json.reading_record, reading_of_integer houtput]
    simpa [members, Json.reading_list] using hchoice
  | event c => simp [members, Target.toJson, Json.reading_record]
  | condition c => simp [members, Target.toJson, Json.reading_record]
  | scene s => simp [members, hfade (List.mem_singleton_self _)]
  | checkpoint c => simp [members, reading_of_integer (int32_ofInt .buffered _)]
  | combiner => simp [members]

end Content

namespace Node

/-! ## Nodes and scenes -/

/-- The members of a node that are not its content's, as they are read. -/
def own (x : Node) : List (String × Json) := [
  ("id", x.id.toJson.reread), ("tooltip", .string x.tooltip),
  ("previous", (Json.ofNode? x.previous).reread), ("next", (Json.ofNode? x.next).reread),
  ("inputs", .list (x.inputs.map (Json.reread ∘ Connector.toJson))),
  ("outputs", .list (x.outputs.map (Json.reread ∘ Connector.toJson)))]

theorem reread_toJson (x : Node) : x.toJson.reread = .record (x.own ++ x.content.tagged) := by
  simp [toJson, own, Content.tagged]

theorem plain {n : Nat} (x : Node) : x.toJson.Plain (n + 3) := by
  refine .record (List.forall_mem_append.2 ⟨?_, x.content.plain_members⟩)
  simp [Json.plain_list, Connector.plain]

theorem fresh_form : form.Fresh := ⟨rfl, by decide⟩

theorem names_form :
    form.names = ["id", "tooltip", "previous", "next", "inputs", "outputs"] := rfl

/-- No member of a content is one of the node's own. -/
theorem tagged_not_mem (c : Content) : ∀ m ∈ c.tagged, m.1 ∉ form.names := by
  rw [names_form]
  cases c <;> simp [Content.tagged, Content.members, Content.tag]

theorem contentMembers_texts (x : Node) :
    contentMembers (Form.texts (x.own ++ x.content.tagged)) = Form.texts x.content.tagged := by
  have hown : contentMembers (Form.texts x.own) = [] := by
    simp [contentMembers, Form.texts, own, names_form]
  have htagged : contentMembers (Form.texts x.content.tagged) = Form.texts x.content.tagged := by
    refine List.filter_eq_self.2 (List.forall_mem_map.2 fun m hm => ?_)
    simpa using tagged_not_mem x.content m hm
  rw [contentMembers] at hown htagged
  rw [contentMembers, Form.texts, List.map_append, List.filter_append, ← Form.texts, hown,
    List.nil_append, ← Form.texts, htagged]

/-- A node is read back exactly if its fade time is. -/
theorem decoder_toJson (source : Source) {x : Node} (hx : x.content.Sized) :
    decoder source x.toJson.reread = .ok x ↔ x.content.Kept := by
  have hform (node : Content → Node) :
      form.objectDecoder Json.reading? source (.record (x.own ++ x.content.tagged)) = .ok node ↔
        (∀ m ∈ x.content.tagged, m.2.reading? = none) ∧
          Node.mk x.id x.tooltip x.previous x.next x.inputs x.outputs = node := by
    have h := @Form.objectDecoder_eq_ok _ source Json.reading? form fresh_form [] x.own
      x.content.tagged rfl (tagged_not_mem x.content) node
    rw [List.nil_append, List.nil_append] at h
    rw [h]
    simp [own, form, Connector.list_toJson]
  have hcontent : decoder source (.record (x.own ++ x.content.tagged)) = .ok x ↔
      (∀ m ∈ x.content.tagged, m.2.reading? = none) ∧
        Content.ofMembers Content.case? (Form.texts x.content.tagged) = .ok x.content := by
    have hread : decoder source (.record (x.own ++ x.content.tagged)) =
        (form.objectDecoder Json.reading? source (.record (x.own ++ x.content.tagged))).bind
          fun node => (Content.ofMembers Content.case?
            (contentMembers (Form.texts (x.own ++ x.content.tagged)))).map node := rfl
    simp only [hread, contentMembers_texts, bind_eq_ok, map_eq_ok, hform]
    constructor
    · rintro ⟨_, ⟨hread, rfl⟩, c, hc, hx⟩
      obtain rfl : c = x.content := congrArg Node.content hx
      exact ⟨hread, hc⟩
    · rintro ⟨hread, hc⟩
      exact ⟨_, ⟨hread, rfl⟩, x.content, hc, rfl⟩
  -- What a reader finds amiss in the content, the content's own reader does not forgive.
  rw [reread_toJson, hcontent, Content.ofMembers_eq_ok hx]
  exact ⟨And.right, fun h => ⟨Content.reading_tagged hx h, h⟩⟩

end Node

namespace Table

theorem plain {n : Nat} (t : Table) : t.toJson.Plain (n + 1) :=
  .record (List.forall_mem_map.2 fun _ _ => .string _)

theorem insertEntry_of_lt {key : String} (text : String) {es : List (String × String)}
    (h : ∀ e ∈ es, e.1 < key) : insertEntry key text es = es ++ [(key, text)] := by
  induction es with
  | nil => rfl
  | cons e es ih =>
    obtain ⟨he, hes⟩ := List.forall_mem_cons.1 h
    rw [insertEntry, if_neg (String.lt_asymm he), if_pos he, ih hes, List.cons_append]

theorem eq_of_entries {t t' : Table} (h : t.entries = t'.entries) : t = t' := by
  cases t
  cases t'
  cases h
  rfl

/-- The entries of a table make the table again. -/
theorem ofList_entries (t : Table) : ofList t.entries = t := by
  have hfold (es : List (String × String)) (t : Table)
      (h : (t.entries ++ es).Pairwise fun a b => a.1 < b.1) :
      (es.foldl (fun t e => t.insert e.1 e.2) t).entries = t.entries ++ es := by
    induction es generalizing t with
    | nil => simp
    | cons e es ih =>
      have hinsert : (t.insert e.1 e.2).entries = t.entries ++ [e] :=
        insertEntry_of_lt e.2 fun d hd =>
          (List.pairwise_append.1 h).2.2 d hd e List.mem_cons_self
      have htail := ih (t.insert e.1 e.2) (by rwa [hinsert, List.append_assoc])
      rw [List.foldl_cons, htail, hinsert, List.append_assoc, List.singleton_append]
  exact eq_of_entries (hfold t.entries empty t.sorted)

theorem decoder_toJson (source : Source) (t : Table) :
    decoder source t.toJson.reread = .ok t := by
  have hread := @table_record _ Decoder.string source Json.string t.entries fun _ _ => rfl
  rw [toJson, Json.reread_record, List.map_map, decoder, map, map_eq_ok]
  refine ⟨t.entries, ?_, ofList_entries t⟩
  simpa [Function.comp_def] using hread

end Table

namespace Scene

/-- The fade times of all nodes. -/
def fades (s : Scene) : List Binary64 := s.nodes.flatMap fun n => n.content.fades

/-- The positions of the outputs that choices leave through. -/
def outputs (s : Scene) : List Nat := s.nodes.flatMap fun n => n.content.outputs

/-- The fade times are read back. -/
def Kept (s : Scene) : Prop := ∀ x ∈ s.fades, (binary .double).Keeps Json.ofDouble x

/-- The positions of outputs have sixty-four bits. -/
def Sized (s : Scene) : Prop := ∀ n ∈ s.outputs, n < UInt64.size

theorem kept_iff {s : Scene} : s.Kept ↔ ∀ n ∈ s.nodes, n.content.Kept := by
  simp only [Kept, fades, List.mem_flatMap, Content.Kept]
  exact ⟨fun h n hn x hx => h x ⟨n, hn, hx⟩, fun h x ⟨n, hn, hx⟩ => h n hn x hx⟩

theorem sized_iff {s : Scene} : s.Sized ↔ ∀ n ∈ s.nodes, n.content.Sized := by
  simp only [Sized, outputs, List.mem_flatMap, Content.Sized]
  exact ⟨fun h n hn k hk => h k ⟨n, hn, hk⟩, fun h k ⟨n, hn, hk⟩ => h n hn k hk⟩

theorem plain {n : Nat} (s : Scene) : s.toJson.Plain (n + 5) :=
  .record (by simp [Json.plain_list, Node.plain, Connection.plain, Table.plain])

/-- A scene is read back exactly if its fade times are. -/
theorem decoder_toJson (source : Source) {s : Scene} (hs : s.Sized) :
    decoder source s.toJson.reread = .ok s ↔ s.Kept := by
  have hnodes : list Node.decoder source (.list (s.nodes.map (Json.reread ∘ Node.toJson))) =
      .ok s.nodes ↔ s.Kept := by
    rw [list_eq_ok, kept_iff]
    exact forall₂_congr fun n hn => Node.decoder_toJson source (sized_iff.1 hs n hn)
  have hconnections : list Connection.decoder source
      (.list (s.connections.map (Json.reread ∘ Connection.toJson))) = .ok s.connections :=
    list_eq_ok.2 fun c _ => Connection.decoder_toJson source c
  rw [toJson, Json.reread_record, decoder, Form.decoder_eq_ok ⟨rfl, by decide⟩ rfl, ← hnodes]
  obtain ⟨name, id, nodes, connections, backgrounds⟩ := s
  dsimp only at hconnections
  simp [hconnections, Table.decoder_toJson]

/-- The text of a scene is read as the scene exactly if its fade times are read back. -/
theorem read_text_iff {s : Scene} (hs : s.Sized) : read s.text = .ok s ↔ s.Kept := by
  rw [read, mapError_eq_ok, text, decode_text (plain (n := 0) s) (by decide),
    decoder_toJson .streamed hs]

/-- **Scenes are read back.**  A scene whose fade times are finite, and whose outputs have positions
    of sixty-four bits, is what its text is read as, if the number format keeps those fade times:
    if the text of each, as a finite number, is read as the number. -/
theorem reads_back {s : Scene} (hsized : ∀ n ∈ s.outputs, n < UInt64.size)
    (hfinite : ∀ x ∈ s.fades, x.isFinite = true)
    (hformat : ∀ x ∈ s.fades, x.isFinite = true →
      decode (binary .double) (Json.ofDouble x).text = .ok x) :
    read s.text = .ok s :=
  (read_text_iff hsized).2 fun x hx => hformat x hx (hfinite x hx)

/-- One second is read back. -/
theorem longFade_kept : decode (binary .double) (Json.ofDouble longFade).text = .ok longFade := by
  have hl : Json.NumberLiteral.WellFormed ⟨false, ['1'], some ['0'], none⟩ :=
    ⟨Json.isDigits_of_all rfl, .inr (by decide), by rintro _ ⟨⟩; exact Json.isDigits_zero, nofun⟩
  have hfinite : longFade.isFinite = true := by decide +kernel
  rw [show Json.ofDouble longFade = .number (.double longFade) from if_pos hfinite,
    @decode_number .double (.double longFade) hfinite _ hl (by decide +kernel)]
  rfl

/-- A background with a fade, and two choices. -/
def dusk : Scene where
  name := "Dusk\n\"late\""
  id := -1
  nodes := [
    { id := ⟨⟨1⟩⟩, next := some ⟨⟨2⟩⟩, content := .background { key := "sky", looped := true } },
    { id := ⟨⟨2⟩⟩, previous := some ⟨⟨1⟩⟩, inputs := [{ id := ⟨⟨3⟩⟩, flow := .input }],
      content := .choice [{ text := "Stay" }, { text := "Go\\", output := 1 }] }]
  connections := [⟨⟨⟨4⟩⟩, ⟨⟨3⟩⟩⟩]
  backgrounds := Table.empty.insert "sky" "sky.png"

theorem reads_back_dusk : dusk.fades = [longFade] ∧ read dusk.text = .ok dusk := by
  refine ⟨rfl, reads_back (by decide) ?_ ?_⟩
  · exact List.forall_mem_singleton.2 (by decide +kernel)
  · exact List.forall_mem_singleton.2 fun _ => longFade_kept

end Scene

/-! ## Scenes that were read -/

theorem Choice.decoder_yields : decoder.Yields fun c => c.output < UInt64.size := by
  refine Form.Yields.decoder ⟨_, natural_yields, nofun, nofun, ?_⟩
  iterate 2 refine Form.Yields.any ?_ _ _ _
  exact fun _ _ _ h => h

theorem Content.combinerDecoder_yields : combinerDecoder.Yields (· = .combiner) := by
  intro source j c h
  unfold combinerDecoder at h
  split at h
  · cases h
  · cases h
    rfl

/-- The kinds of contents make such whose outputs have sixty-four bits. -/
theorem Content.cases_yield : ∀ kind ∈ cases, kind.2.Yields Sized := by
  have hnone {c : Content} (hc : c.outputs = []) : c.Sized := by
    rw [Sized, hc]
    nofun
  have hchoice : ((Form.of id).optional "choices" (list Choice.decoder) []).decoder.Yields
      fun choices => ∀ c ∈ choices, c.output < UInt64.size :=
    Form.Yields.decoder ⟨_, Choice.decoder_yields.list, by rintro _ ⟨⟩; nofun, nofun,
      fun _ h => h⟩
  have hcombiner : combinerDecoder.Yields Sized := fun source j c h => by
    rw [combinerDecoder_yields source j c h]
    exact hnone rfl
  simp only [cases, List.forall_mem_cons]
  exact ⟨(yields_true _).map fun _ _ => hnone rfl, (yields_true _).map fun _ _ => hnone rfl,
    (yields_true _).map fun _ _ => hnone rfl, (yields_true _).map fun _ _ => hnone rfl,
    hchoice.map fun _ h => List.forall_mem_map.2 h, (yields_true _).map fun _ _ => hnone rfl,
    (yields_true _).map fun _ _ => hnone rfl, (yields_true _).map fun _ _ => hnone rfl,
    (yields_true _).map fun _ _ => hnone rfl, hcombiner, nofun⟩

theorem Content.case?_mem {j : Json} {d : Decoder Content} (h : case? j = some d) :
    ∃ kind ∈ cases, kind.2 = d := by
  unfold case? at h
  split at h
  · obtain ⟨kind, hkind, rfl⟩ := Option.map_eq_some_iff.1 h
    exact ⟨kind, List.mem_of_getElem? hkind, rfl⟩
  · unfold named? at h
    split at h
    · obtain ⟨before, after, hcases, -⟩ := List.lookup_eq_some_iff.1 h
      exact ⟨(_, d), by rw [hcases]; exact List.mem_append_right _ List.mem_cons_self, rfl⟩
    · cases h

theorem Content.sized_of_ofMembers {members : List (Json.Name × Json)} {c : Content}
    (h : ofMembers case? members = .ok c) : c.Sized := by
  unfold ofMembers at h
  split at h
  · unfold ofKind at h
    split at h
    · rename_i d hd
      obtain ⟨kind, hkind, rfl⟩ := case?_mem hd
      exact cases_yield kind hkind _ _ _ h
    · cases h
  · cases h

theorem Node.decoder_yields : decoder.Yields fun n => n.content.Sized := by
  have hform : form.Yields fun node => ∀ c, (node c).content = c := by
    iterate 6 refine Form.Yields.any ?_ _ _ _
    exact fun _ _ _ _ _ _ _ => rfl
  intro source j n h
  unfold decoder at h
  split at h
  · obtain ⟨node, hnode, h⟩ := bind_eq_ok.1 h
    obtain ⟨c, hc, rfl⟩ := map_eq_ok.1 h
    rw [hform.objectDecoder Json.reading? _ _ node hnode c]
    exact Content.sized_of_ofMembers hc
  · cases h

theorem Scene.decoder_yields : decoder.Yields Sized := by
  refine Form.Yields.decoder ?_
  iterate 2 refine Form.Yields.any ?_ _ _ _
  refine ⟨_, Node.decoder_yields.list, by rintro _ ⟨⟩; nofun, nofun, ?_⟩
  iterate 2 refine Form.Yields.any ?_ _ _ _
  exact fun _ _ _ hnodes _ _ => sized_iff.2 hnodes

end VisualNovel
