import OrbitImage.Proofs.Document.Record
import OrbitImage.Proofs.Session.Panel
import OrbitImage.Session.Record
/-!
Requests, panels and sessions are read back from what they are written as.
-/
namespace OrbitImage

namespace Contrast

/-- The fields of a contrast of which those with the given names are filled. -/
def fieldsIn (c : Contrast) (seen : List String) : ContrastFields :=
  { enabled := Slot.given seen "enabled" c.enabled
    auto := Slot.given seen "auto" c.auto
    min := Slot.given seen "min" c.min
    max := Slot.given seen "max" c.max }

theorem takenBy_slots (c : Contrast) :
    Node.TakenBy ContrastFields.slots c.fieldsIn c.members := by
  simp only [Node.TakenBy, members, List.forall_mem_cons]
  refine ⟨⟨_, rfl, Slot.takes_of rfl ?_ ?_⟩, ⟨_, rfl, Slot.takes_of rfl ?_ ?_⟩,
    ⟨_, rfl, Slot.takes_of (Node.readByte_int _) ?_ ?_⟩,
    ⟨_, rfl, Slot.takes_of (Node.readByte_int _) ?_ ?_⟩, by simp⟩
  all_goals
    intro seen
    simp [fieldsIn]

theorem complete_fieldsIn (c : Contrast) :
    (c.fieldsIn (c.members.map Prod.fst).reverse).complete = c := by
  simp [members, fieldsIn, ContrastFields.complete]

theorem readContrast_toJson (c : Contrast) (origin : Origin) :
    c.toJson.node.readContrast origin = .ok c := by
  have hnodup : (c.members.map Prod.fst).Nodup :=
    show ["enabled", "auto", "min", "max"].Nodup by decide
  have hread := Node.readRecord_map c.takenBy_slots hnodup origin
  change ContrastFields.complete <$> (Json.map c.members).node.readRecord origin
    ContrastFields.slots (c.fieldsIn []) = _
  rw [hread]
  exact congrArg Except.ok c.complete_fieldsIn

/-- The values of a contrast stay the same when they are looked through. -/
theorem sift_members (c : Contrast) (depth : Nat) :
    ∀ member ∈ c.members, member.2.node.sift depth = .ok member.2.node := by
  have hbyte : ∀ x : UInt8, (Int.ofNat x.toNat).natAbs < UInt64.size :=
    fun x => Nat.lt_trans x.toNat_lt (by decide)
  simp only [members, List.forall_mem_cons]
  exact ⟨rfl, rfl, Node.sift_int (hbyte _) _, Node.sift_int (hbyte _) _, by simp⟩

end Contrast

namespace Mode

theorem find?_id (m : Mode) : all.find? (·.id = m.id) = some m := by
  cases m <;> rfl

end Mode

namespace PairScale

theorem find?_id (s : PairScale) : all.find? (·.id = s.id) = some s := by
  cases s <;> rfl

end PairScale

theorem Node.readResolution_side (r : Resolution) :
    (Json.int r.side.toNat).node.readResolution = .ok r := by
  rw [readResolution, readWord_int]
  cases r <;> rfl

namespace Panel

/-- The fields of a panel of which those with the given names are filled. -/
def fieldsIn (p : Panel) (seen : List String) : Fields :=
  { equation := Slot.given seen "equation" p.equation
    seed := Slot.given seen "seed" p.seed
    resolution := Slot.given seen "resolution" p.resolution
    mode := Slot.given seen "mode" p.mode
    bitPlane := Slot.given seen "bitIndex" p.bitPlane
    builtInName := Slot.given seen "builtInGenerator" p.builtInName
    contrast := Slot.given seen "contrastStretch" p.contrast
    pairScale := Slot.given seen "pairScale" p.pairScale }

theorem takenBy_slots (p : Panel) (origin : Origin) :
    Node.TakenBy (Fields.slots origin) p.fieldsIn p.members := by
  simp only [Node.TakenBy, members, List.forall_mem_cons]
  refine ⟨⟨_, rfl, Slot.takes_of rfl ?_ ?_⟩,
    ⟨_, rfl, Slot.takes_of (Node.readWord_int _) ?_ ?_⟩,
    ⟨_, rfl, Slot.takes_of (Node.readResolution_side _) ?_ ?_⟩,
    ⟨_, rfl, Slot.takes_of (Node.readNamed_text p.mode.find?_id origin) ?_ ?_⟩,
    ⟨_, rfl, Slot.takes_of (Node.readByte_int _) ?_ ?_⟩,
    ⟨_, rfl, Slot.takes_of rfl ?_ ?_⟩,
    ⟨_, rfl, Slot.takes_of (p.contrast.readContrast_toJson origin) ?_ ?_⟩,
    ⟨_, rfl, Slot.takes_of (Node.readNamed_text p.pairScale.find?_id origin) ?_ ?_⟩, by simp⟩
  all_goals
    intro seen
    simp [fieldsIn]

theorem complete_fieldsIn (p : Panel) :
    (p.fieldsIn (p.members.map Prod.fst).reverse).complete = p := by
  simp [members, fieldsIn, Fields.complete]

theorem ofNode_toJson (p : Panel) (origin : Origin) : ofNode origin p.toJson.node = .ok p := by
  have hnodup : (p.members.map Prod.fst).Nodup :=
    show ["equation", "seed", "resolution", "mode", "bitIndex", "builtInGenerator",
      "contrastStretch", "pairScale"].Nodup by decide
  have hread := Node.readRecord_map (p.takenBy_slots origin) hnodup origin
  change Fields.complete <$> (Json.map p.members).node.readRecord origin
    (Fields.slots origin) (p.fieldsIn []) = _
  rw [hread]
  exact congrArg Except.ok p.complete_fieldsIn

/-- The values of a panel stay the same when they are looked through. -/
theorem sift_members (p : Panel) :
    ∀ member ∈ p.members, member.2.node.sift Session.depthLimit = .ok member.2.node := by
  have hword : ∀ x : UInt32, (Int.ofNat x.toNat).natAbs < UInt64.size :=
    fun x => Nat.lt_trans x.toNat_lt (by decide)
  have hbyte : ∀ x : UInt8, (Int.ofNat x.toNat).natAbs < UInt64.size :=
    fun x => Nat.lt_trans x.toNat_lt (by decide)
  simp only [members, List.forall_mem_cons]
  exact ⟨rfl, Node.sift_int (hword _) _, Node.sift_int (hword _) _, rfl,
    Node.sift_int (hbyte _) _, rfl, Node.sift_map (p.contrast.sift_members _), rfl, by simp⟩

end Panel

namespace Session

/-- Members that are no timestamps are kept as they are. -/
theorem foldlM_siftMember {members : List (String × Json)}
    (hname : ∀ member ∈ members, member.1 ≠ "timestamp")
    (hsift : ∀ member ∈ members, member.2.node.sift depthLimit = .ok member.2.node)
    (time : Option (Option String)) (sifted : List (Node × Node)) :
    (Json.memberNodes members).foldlM siftMember (time, sifted) =
      .ok (time, (Json.memberNodes members).reverse ++ sifted) := by
  induction members generalizing sifted with
  | nil => rfl
  | cons member members ih =>
      obtain ⟨name, j⟩ := member
      obtain ⟨hmember, hname⟩ := List.forall_mem_cons.mp hname
      obtain ⟨hnode, hsift⟩ := List.forall_mem_cons.mp hsift
      have hstep : siftMember (time, sifted) (.scalar (.text name), j.node) =
          .ok (time, (.scalar (.text name), j.node) :: sifted) := by
        change (if name = "timestamp" then _ else _) = _
        rw [if_neg hmember, hnode]
        rfl
      rw [Json.memberNodes, List.foldlM_cons, hstep]
      change (Json.memberNodes members).foldlM siftMember _ = _
      rw [ih hname hsift, List.reverse_cons, List.append_assoc]
      rfl

theorem ofNode_toJson (s : Session) : ofNode s.toJson.node = .ok s := by
  obtain ⟨p, timestamp⟩ := s
  have hname : ∀ member ∈ p.members, member.1 ≠ "timestamp" := by simp [Panel.members]
  have hfold : (Json.memberNodes (p.members ++ timestampMember timestamp)).foldlM siftMember
      (none, []) = .ok (timestamp.map some, (Json.memberNodes p.members).reverse) := by
    rw [Json.memberNodes_append, List.foldlM_append,
      foldlM_siftMember hname p.sift_members none [], List.append_nil]
    cases timestamp <;> rfl
  change ofMembers (Json.memberNodes (p.members ++ timestampMember timestamp)) = _
  rw [ofMembers, hfold]
  change (do
    let panel ← Panel.ofNode .sifted (.map (Json.memberNodes p.members).reverse.reverse)
    return { panel, timestamp := (timestamp.map some).join }) = Except.ok (Session.mk p timestamp)
  have hpanel : Panel.ofNode .sifted (.map (Json.memberNodes p.members)) = .ok p :=
    p.ofNode_toJson .sifted
  rw [List.reverse_reverse, hpanel]
  cases timestamp <;> rfl

end Session

namespace SplitSession

/-- The fields of a split session of which those with the given names are filled. -/
def fieldsIn (s : SplitSession) (seen : List String) : Fields :=
  { left := Slot.given seen "leftPanel" s.left
    right := Slot.given seen "rightPanel" s.right
    timestamp := Slot.given seen "timestamp" s.timestamp }

/-- The values for the panels may be any that they are read from. -/
theorem takenBy_of_panels {s : SplitSession} {left right : Json} {origin : Origin}
    (hleft : Panel.ofNode origin left.node = .ok s.left)
    (hright : Panel.ofNode origin right.node = .ok s.right) :
    Node.TakenBy (slots origin) s.fieldsIn
      ([("leftPanel", left), ("rightPanel", right)] ++ timestampMember s.timestamp) := by
  have hpanels : Node.TakenBy (slots origin) s.fieldsIn
      [("leftPanel", left), ("rightPanel", right)] := by
    simp only [Node.TakenBy, List.forall_mem_cons]
    refine ⟨⟨_, rfl, Slot.takes_of hleft ?_ ?_⟩, ⟨_, rfl, Slot.takes_of hright ?_ ?_⟩, by simp⟩
    all_goals
      intro seen
      simp [fieldsIn]
  refine List.forall_mem_append.mpr ⟨hpanels, ?_⟩
  obtain ⟨_, _, timestamp⟩ := s
  cases timestamp with
  | none => simp [timestampMember]
  | some time =>
      refine List.forall_mem_cons.mpr ⟨⟨_, rfl, Slot.takes_of (a := some time) rfl ?_ ?_⟩, by simp⟩
      all_goals
        intro seen
        simp [fieldsIn]

theorem takenBy_slots (s : SplitSession) (origin : Origin) :
    Node.TakenBy (slots origin) s.fieldsIn s.members :=
  takenBy_of_panels (s.left.ofNode_toJson origin) (s.right.ofNode_toJson origin)

theorem ofNode_toJson (s : SplitSession) (origin : Origin) :
    ofNode origin s.toJson.node = .ok s := by
  have hnodup : (s.members.map Prod.fst).Nodup := by
    cases h : s.timestamp <;> simp [members, timestampMember, h]
  have hread := Node.readRecord_map (s.takenBy_slots origin) hnodup origin
  change (do
    let f ← (Json.map s.members).node.readRecord origin (slots origin) (s.fieldsIn [])
    return { left := f.left.getD {}, right := f.right.getD {}, timestamp := f.timestamp.join }) =
      Except.ok s
  rw [hread]
  obtain ⟨left, right, timestamp⟩ := s
  cases timestamp <;> rfl

end SplitSession

namespace Request

/-- The fields of a request of which those with the given names are filled. -/
def fieldsIn (r : Request) (seen : List String) : Fields :=
  { equation := Slot.given seen "equation" r.equation
    seed := Slot.given seen "seed" r.seed
    resolution := Slot.given seen "resolution" r.resolution
    mode := Slot.given seen "mode" r.mode
    bitPlane := Slot.given seen "bitPlaneIndex" r.bitPlane
    contrast := Slot.given seen "contrastStretch" r.contrast
    useBuiltIn := Slot.given seen "useBuiltIn" r.useBuiltIn
    builtInName := Slot.given seen "builtInType" r.builtInName
    pairScale := Slot.given seen "pairScale" r.pairScale }

theorem takenBy_slots (r : Request) (origin : Origin) :
    Node.TakenBy (Fields.slots origin) r.fieldsIn r.members := by
  simp only [Node.TakenBy, members, List.forall_mem_cons]
  refine ⟨⟨_, rfl, Slot.takes_of rfl ?_ ?_⟩,
    ⟨_, rfl, Slot.takes_of (Node.readWord_int _) ?_ ?_⟩,
    ⟨_, rfl, Slot.takes_of (Node.readResolution_side _) ?_ ?_⟩,
    ⟨_, rfl, Slot.takes_of (Node.readNamed_text r.mode.find?_id origin) ?_ ?_⟩,
    ⟨_, rfl, Slot.takes_of (Node.readByte_int _) ?_ ?_⟩,
    ⟨_, rfl, Slot.takes_of (r.contrast.readContrast_toJson origin) ?_ ?_⟩,
    ⟨_, rfl, Slot.takes_of rfl ?_ ?_⟩,
    ⟨_, rfl, Slot.takes_of rfl ?_ ?_⟩,
    ⟨_, rfl, Slot.takes_of (Node.readNamed_text r.pairScale.find?_id origin) ?_ ?_⟩, by simp⟩
  all_goals
    intro seen
    simp [fieldsIn]

theorem ofNode_toJson (r : Request) (origin : Origin) : ofNode origin r.toJson.node = .ok r := by
  have hnodup : (r.members.map Prod.fst).Nodup :=
    show ["equation", "seed", "resolution", "mode", "bitPlaneIndex", "contrastStretch",
      "useBuiltIn", "builtInType", "pairScale"].Nodup by decide
  have hread := Node.readRecord_map (r.takenBy_slots origin) hnodup origin
  have hcomplete : (r.fieldsIn (r.members.map Prod.fst).reverse).complete? = some r := rfl
  refine bind_eq_ok_iff.mpr ⟨_, hread, ?_⟩
  rw [hcomplete]
  rfl

end Request

/-! ### Documents -/

theorem Request.isExact_toJson (r : Request) : r.toJson.isExact :=
  rfl

theorem Panel.isExact_toJson (p : Panel) : p.toJson.isExact :=
  rfl

theorem Session.isExact_toJson (s : Session) : s.toJson.isExact := by
  obtain ⟨p, _ | time⟩ := s <;> rfl

theorem SplitSession.isExact_toJson (s : SplitSession) : s.toJson.isExact := by
  obtain ⟨left, right, _ | time⟩ := s <;> rfl

namespace Saved

variable {α : Type} [Saved α]

/-- A document in a file is one of the texts of its value. -/
theorem text_mem_texts (a : α) : text a ∈ (toJson a).texts := by
  simp [text, Json.texts]

theorem ofJson_texts {j : Json} {a : α} (hexact : j.isExact) (hread : ofNode .json j.node = .ok a)
    {text : String} (htext : text ∈ j.texts) : ofJson text = Except.ok a := by
  have hvalue : (Reading.ofJson text).value (ofNode .json) = .ok a := by
    rw [Json.ofJson_texts hexact htext, Reading.value, hread]
    rfl
  rw [ofJson, hvalue]

end Saved

theorem Session.ofJson_texts {s : Session} {text : String} (h : text ∈ s.toJson.texts) :
    Saved.ofJson text = Except.ok s :=
  Saved.ofJson_texts s.isExact_toJson s.ofNode_toJson h

theorem SplitSession.ofJson_texts {s : SplitSession} {text : String} (h : text ∈ s.toJson.texts) :
    Saved.ofJson text = Except.ok s :=
  Saved.ofJson_texts s.isExact_toJson (s.ofNode_toJson .json) h

theorem Session.ofJson_text (s : Session) : Saved.ofJson (Saved.text s) = Except.ok s :=
  s.ofJson_texts (Saved.text_mem_texts s)

theorem SplitSession.ofJson_text (s : SplitSession) :
    Saved.ofJson (Saved.text s) = Except.ok s :=
  s.ofJson_texts (Saved.text_mem_texts s)

/-- The member that a timestamp is read as. -/
def timestampNodes (timestamp : Option String) : List (Node × Node) :=
  timestamp.toList.map fun time => (.scalar (.text "timestamp"), .scalar (.text time))

/-- Requests, panels and sessions are read back from each of the texts they are written as, whatever
characters their texts hold. A session has the members of its panel as its own, a split session has
two panels, and the member of the timestamp follows if there is one. -/
theorem documents_read_back :
    (∀ r : Request, ∀ text ∈ r.toJson.texts, Request.ofJson text = .ok r) ∧
    (∀ p : Panel, ∀ text ∈ p.toJson.texts,
      (Reading.ofJson text).value (Panel.ofNode .json) = .ok p) ∧
    (∀ s : Session, ∀ text ∈ s.toJson.texts, Saved.ofJson text = Except.ok s ∧
      ∃ members, (Reading.ofJson s.panel.toJson.render).root = .map members ∧
        (Reading.ofJson text).root = .map (members ++ timestampNodes s.timestamp)) ∧
    (∀ s : SplitSession, ∀ text ∈ s.toJson.texts, Saved.ofJson text = Except.ok s ∧
      (Reading.ofJson text).root =
        .map ([(.scalar (.text "leftPanel"), (Reading.ofJson s.left.toJson.render).root),
          (.scalar (.text "rightPanel"), (Reading.ofJson s.right.toJson.render).root)] ++
            timestampNodes s.timestamp)) := by
  have hpanel : ∀ p : Panel, (Reading.ofJson p.toJson.render).root = p.toJson.node := by
    intro p
    rw [Json.ofJson_texts p.isExact_toJson (by simp [Json.texts])]
  refine ⟨fun r text h => ?_, fun p text h => ?_, fun s text h => ⟨s.ofJson_texts h, ?_⟩,
    fun s text h => ⟨s.ofJson_texts h, ?_⟩⟩
  · rw [Request.ofJson, Json.ofJson_texts r.isExact_toJson h, Reading.value, r.ofNode_toJson]
    rfl
  · rw [Json.ofJson_texts p.isExact_toJson h, Reading.value, p.ofNode_toJson]
    rfl
  · refine ⟨_, hpanel s.panel, ?_⟩
    rw [Json.ofJson_texts s.isExact_toJson h, Session.toJson, Json.node, Json.memberNodes_append]
    cases s.timestamp <;> rfl
  · rw [Json.ofJson_texts s.isExact_toJson h, hpanel, hpanel, SplitSession.toJson, SplitSession.members,
      Json.node, Json.memberNodes_append]
    cases s.timestamp <;> rfl

/-- A quote, a backslash, a control character and one beyond the first plane. -/
theorem documents_read_back_escapes :
    let p : Panel := { equation := "x\"\\\x01😀", seed := 0 }
    let r : Request := { equation := p.equation, builtInName := "\n" }
    p.toJson.compact.take 26 = "\x7b\"equation\":\"x\\\"\\\\\\u0001😀\"".toList ∧
      Request.ofJson r.toJson.renderIndented = .ok r ∧
      (Reading.ofJson p.toJson.render).value (Panel.ofNode .json) = .ok p ∧
      Saved.ofJson (Saved.text ({ panel := p } : Session)) = Except.ok ({ panel := p } : Session) ∧
      Saved.ofJson (Saved.text ({ left := p, timestamp := some "1" } : SplitSession)) =
        Except.ok ({ left := p, timestamp := some "1" } : SplitSession) := by
  intro p r
  obtain ⟨hrequest, hpanel, hsession, hsplit⟩ := documents_read_back
  refine ⟨by decide +kernel, ?_, ?_, ?_, ?_⟩
  · exact hrequest r _ (by simp [Json.texts])
  · exact hpanel p _ (by simp [Json.texts])
  · exact (hsession { panel := p } _ (Saved.text_mem_texts ({ panel := p } : Session))).1
  · exact (hsplit { left := p, timestamp := some "1" } _
      (Saved.text_mem_texts ({ left := p, timestamp := some "1" } : SplitSession))).1

end OrbitImage
