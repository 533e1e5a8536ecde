import OrbitImage.Proofs.Document.Partial
import OrbitImage.Proofs.Session.RoundTrip
/-!
Documents of which a part is left. From the map of a session any fields may be missing, and from the
maps within it; those that are left may be in another order and stand among unknown ones. The
session read is the saved one with the missing fields at their defaults, each at its own: a field
missing from a contrast leaves the rest of the contrast as it is, and likewise for a panel.
-/
namespace OrbitImage

namespace Contrast

def names : List String :=
  ["enabled", "auto", "min", "max"]

/-- Off; once on, the bounds are those observed, and else the whole range of a byte. -/
def documented : Contrast :=
  { enabled := false, auto := true, min := 0, max := 255 }

/-- The fields that are kept, and for the others their defaults. -/
def only (c : Contrast) (keep : String → Bool) : Contrast :=
  { enabled := if keep "enabled" then c.enabled else documented.enabled
    auto := if keep "auto" then c.auto else documented.auto
    min := if keep "min" then c.min else documented.min
    max := if keep "max" then c.max else documented.max }

variable {c : Contrast} {keep : String → Bool}

theorem complete_fieldsIn_of_keep {seen : List String}
    (h : ∀ name ∈ names, name ∈ seen ↔ keep name) : (c.fieldsIn seen).complete = c.only keep := by
  simp only [names, List.forall_mem_cons] at h
  obtain ⟨henabled, hauto, hmin, hmax, -⟩ := h
  simp only [fieldsIn, ContrastFields.complete, Slot.getD_given henabled, Slot.getD_given hauto,
    Slot.getD_given hmin, Slot.getD_given hmax]
  rfl

theorem readContrast_of_retains {j : Json} (h : j.Retains c.members names keep) (origin : Origin) :
    j.node.readContrast origin = .ok (c.only keep) := by
  have hnodup : (c.members.map Prod.fst).Nodup := show names.Nodup by decide
  obtain ⟨seen, hread, hseen⟩ := h.exists_readRecord c.takenBy_slots hnodup origin
  change ContrastFields.complete <$> j.node.readRecord origin ContrastFields.slots
    (c.fieldsIn []) = _
  rw [hread]
  exact congrArg Except.ok (complete_fieldsIn_of_keep hseen)

end Contrast

namespace Panel

def names : List String :=
  ["equation", "seed", "resolution", "mode", "bitIndex", "builtInGenerator", "contrastStretch",
    "pairScale"]

def documented : Panel :=
  { equation := "x ^ (x << 13)", seed := 12345, resolution := .r256, mode := .raw, bitPlane := 0,
    builtInName := "", contrast := .documented, pairScale := .log }

/-- Which fields of a panel are kept, and of its contrast. -/
structure Kept where
  own : String → Bool
  contrast : String → Bool

/-- The fields that are kept, and for the others their defaults. -/
def only (p : Panel) (kept : Kept) : Panel :=
  { equation := if kept.own "equation" then p.equation else documented.equation
    seed := if kept.own "seed" then p.seed else documented.seed
    resolution := if kept.own "resolution" then p.resolution else documented.resolution
    mode := if kept.own "mode" then p.mode else documented.mode
    bitPlane := if kept.own "bitIndex" then p.bitPlane else documented.bitPlane
    builtInName := if kept.own "builtInGenerator" then p.builtInName else documented.builtInName
    contrast :=
      if kept.own "contrastStretch" then p.contrast.only kept.contrast else documented.contrast
    pairScale := if kept.own "pairScale" then p.pairScale else documented.pairScale }

/-- The members of a panel with another value for its contrast. -/
def membersWith (p : Panel) (contrast : Json) : List (String × Json) :=
  p.members.map fun member =>
    if member.1 = "contrastStretch" then (member.1, contrast) else member

/-- A map with what is kept of a panel. -/
def PartOf (p : Panel) (kept : Kept) (j : Json) : Prop :=
  ∃ contrast : Json, contrast.Retains p.contrast.members Contrast.names kept.contrast ∧
    j.Retains (p.membersWith contrast) names kept.own

variable {p : Panel} {kept : Kept} {contrast : Json}

theorem partOf_toJson (p : Panel) :
    p.PartOf { own := fun _ => true, contrast := fun _ => true } p.toJson :=
  ⟨p.contrast.toJson, .refl _ _, .refl _ _⟩

theorem forall_mem_membersWith {P : Json → Prop} (hmembers : ∀ member ∈ p.members, P member.2)
    (hcontrast : P contrast) : ∀ member ∈ p.membersWith contrast, P member.2 := by
  intro member hmember
  obtain ⟨old, hold, rfl⟩ := List.mem_map.mp hmember
  split
  case isTrue => exact hcontrast
  case isFalse => exact hmembers old hold

/-- The value for the contrast may be any that it is read from. -/
theorem takenBy_membersWith {origin : Origin}
    (h : contrast.node.readContrast origin = .ok p.contrast) :
    Node.TakenBy (Fields.slots origin) p.fieldsIn (p.membersWith contrast) := by
  intro member hmember
  obtain ⟨old, hold, rfl⟩ := List.mem_map.mp hmember
  split
  case isTrue hname =>
    rw [hname]
    exact ⟨_, rfl, Slot.takes_of h (by simp [fieldsIn]) (by simp [fieldsIn])⟩
  case isFalse => exact p.takenBy_slots origin old hold

theorem complete_fieldsIn_of_keep {seen : List String}
    (h : ∀ name ∈ names, name ∈ seen ↔ kept.own name) :
    (({ p with contrast := p.contrast.only kept.contrast } : Panel).fieldsIn seen).complete =
      p.only kept := by
  simp only [names, List.forall_mem_cons] at h
  obtain ⟨hequation, hseed, hresolution, hmode, hbit, hbuiltIn, hcontrast, hscale, -⟩ := h
  simp only [fieldsIn, Fields.complete, Slot.getD_given hequation, Slot.getD_given hseed,
    Slot.getD_given hresolution, Slot.getD_given hmode, Slot.getD_given hbit,
    Slot.getD_given hbuiltIn, Slot.getD_given hcontrast, Slot.getD_given hscale]
  rfl

theorem PartOf.ofNode {j : Json} (h : p.PartOf kept j) (origin : Origin) :
    ofNode origin j.node = .ok (p.only kept) := by
  obtain ⟨contrast, hcontrast, hpanel⟩ := h
  -- What is read is a part of the panel whose contrast is already the one read.
  have htaken := takenBy_membersWith
    (p := { p with contrast := p.contrast.only kept.contrast })
    (Contrast.readContrast_of_retains hcontrast origin)
  have hnodup : ((p.membersWith contrast).map Prod.fst).Nodup := show names.Nodup by decide
  have hslots : j.Retains (p.membersWith contrast) ((Fields.slots origin).map Slot.name) kept.own :=
    hpanel
  obtain ⟨seen, hread, hseen⟩ := hslots.exists_readRecord htaken hnodup origin
  change Fields.complete <$> j.node.readRecord origin (Fields.slots origin) _ = _
  refine (congrArg (Fields.complete <$> ·) hread).trans ?_
  exact congrArg Except.ok (complete_fieldsIn_of_keep hseen)

theorem isExact_membersWith
    (h : contrast.Retains p.contrast.members Contrast.names kept.contrast) :
    ∀ member ∈ p.membersWith contrast, member.2.isExact := by
  have hfields : Json.membersAreExact p.contrast.members := rfl
  exact forall_mem_membersWith (P := (·.isExact)) (Json.membersAreExact_iff.mp p.isExact_toJson)
    (h.isExact (Json.membersAreExact_iff.mp hfields))

theorem PartOf.isExact {j : Json} (h : p.PartOf kept j) : j.isExact := by
  obtain ⟨contrast, hcontrast, hpanel⟩ := h
  exact hpanel.isExact (isExact_membersWith hcontrast)

end Panel

theorem eq_of_perm_timestampMember {timestamp : Option String} {members : List (String × Json)}
    (h : members.Perm (timestampMember timestamp)) : members = timestampMember timestamp := by
  cases timestamp with
  | none => exact List.perm_nil.mp h
  | some time => exact List.perm_singleton.mp h

theorem isExact_timestampMember (timestamp : Option String) :
    ∀ member ∈ timestampMember timestamp, member.2.isExact := by
  cases timestamp <;> simp [timestampMember, Json.isExact]

namespace Session

def names : List String :=
  Panel.names ++ ["timestamp"]

/-- The fields that are kept, and for the others their defaults. -/
def only (s : Session) (kept : Panel.Kept) : Session :=
  { panel := s.panel.only kept
    timestamp := if kept.own "timestamp" then s.timestamp else none }

/-- A map with what is kept of a session. -/
def PartOf (s : Session) (kept : Panel.Kept) (j : Json) : Prop :=
  ∃ contrast : Json, contrast.Retains s.panel.contrast.members Contrast.names kept.contrast ∧
    j.Retains (s.panel.membersWith contrast ++ timestampMember s.timestamp) names kept.own

/-- The timestamp is found wherever it stands, and the other members keep their order. -/
theorem foldlM_siftMember_of_timestamp {ms : List (String × Json)} {timestamp : Option String}
    (htime : (ms.filter fun member => member.1 = "timestamp") = timestampMember timestamp)
    (hsift : ∀ member ∈ ms, member.2.node.sift depthLimit = .ok member.2.node) :
    (Json.memberNodes ms).foldlM siftMember (none, []) =
      .ok (timestamp.map some,
        (Json.memberNodes (ms.filter fun member => member.1 ≠ "timestamp")).reverse) := by
  cases timestamp with
  | none =>
      have hname : ∀ member ∈ ms, member.1 ≠ "timestamp" := by
        intro member hmember
        simpa using List.filter_eq_nil_iff.mp htime member hmember
      rw [foldlM_siftMember hname hsift none [], List.append_nil,
        List.filter_eq_self.mpr fun member hmember => decide_eq_true (hname member hmember)]
      rfl
  | some time =>
      -- The one timestamp cuts the members in two, and those on both sides are kept.
      obtain ⟨before, after, rfl, hbefore, -, hafter⟩ := List.filter_eq_cons_iff.mp htime
      have hbefore : ∀ member ∈ before, member.1 ≠ "timestamp" := by
        intro member hmember
        simpa using hbefore member hmember
      have hafter : ∀ member ∈ after, member.1 ≠ "timestamp" := by
        intro member hmember
        simpa using List.filter_eq_nil_iff.mp hafter member hmember
      obtain ⟨hfirst, hrest⟩ := List.forall_mem_append.mp hsift
      have hothers : (before ++ ("timestamp", Json.text time) :: after).filter
          (fun member => member.1 ≠ "timestamp") = before ++ after := by
        rw [List.filter_append, List.filter_cons_of_neg (by simp),
          List.filter_eq_self.mpr fun member hmember => decide_eq_true (hbefore member hmember),
          List.filter_eq_self.mpr fun member hmember => decide_eq_true (hafter member hmember)]
      have hstep : siftMember (none, (Json.memberNodes before).reverse)
          (.scalar (.text "timestamp"), .scalar (.text time)) =
          .ok (some (some time), (Json.memberNodes before).reverse) := rfl
      rw [hothers, Json.memberNodes_append, List.foldlM_append, foldlM_siftMember hbefore hfirst,
        List.append_nil]
      change (Json.memberNodes (("timestamp", Json.text time) :: after)).foldlM siftMember
        (none, (Json.memberNodes before).reverse) = _
      rw [Json.memberNodes, List.foldlM_cons, Json.node, hstep]
      change (Json.memberNodes after).foldlM siftMember _ = _
      rw [foldlM_siftMember hafter (List.forall_mem_cons.mp hrest).2, Json.memberNodes_append,
        List.reverse_append]
      rfl

theorem ne_timestamp_of_mem_membersWith {p : Panel} {contrast : Json} :
    ∀ member ∈ p.membersWith contrast, member.1 ≠ "timestamp" := by
  intro member hmember
  have hname : member.1 ∈ Panel.names := List.mem_map_of_mem (f := Prod.fst) hmember
  exact fun htime => absurd (htime ▸ hname) (by decide)

theorem filter_timestampMember (s : Session) (kept : Panel.Kept) :
    (timestampMember s.timestamp).filter (fun member => kept.own member.1) =
      timestampMember (s.only kept).timestamp := by
  obtain ⟨p, timestamp⟩ := s
  cases timestamp <;> cases hkeep : kept.own "timestamp" <;>
    simp [only, timestampMember, hkeep]

/-- What is kept of a session is the timestamp, if it is, and what is kept of the panel. -/
theorem PartOf.exists_others {s : Session} {kept : Panel.Kept} {j : Json} (h : s.PartOf kept j) :
    ∃ ms, j = .map ms ∧
      (ms.filter fun member => member.1 = "timestamp") =
        timestampMember (s.only kept).timestamp ∧
      s.panel.PartOf kept (.map (ms.filter fun member => member.1 ≠ "timestamp")) := by
  obtain ⟨contrast, hcontrast, ms, added, rfl, hperm, hadded⟩ := h
  rw [List.filter_append, filter_timestampMember, List.append_assoc] at hperm
  have htimes : ∀ member ∈ timestampMember (s.only kept).timestamp, member.1 = "timestamp" := by
    cases (s.only kept).timestamp <;> simp [timestampMember]
  have hothers : ∀ member ∈ (s.panel.membersWith contrast).filter (fun member =>
      kept.own member.1) ++ added, member.1 ≠ "timestamp" := by
    intro member hmember
    rcases List.mem_append.mp hmember with hmember | hmember
    · exact ne_timestamp_of_mem_membersWith member (List.mem_filter.mp hmember).1
    · exact fun htime => (hadded member hmember).1 (htime ▸ by decide)
  have htime : (ms.filter fun member => member.1 = "timestamp").Perm
      (timestampMember (s.only kept).timestamp) :=
    Json.perm_filter_of_append (hperm.trans (List.perm_append_comm_assoc _ _ _))
      (fun member hmember => decide_eq_true (htimes member hmember))
      fun member hmember => by simpa using hothers member hmember
  have hpanel : (ms.filter fun member => member.1 ≠ "timestamp").Perm
      ((s.panel.membersWith contrast).filter (fun member => kept.own member.1) ++ added) :=
    Json.perm_filter_of_append
      ((hperm.trans (List.perm_append_comm_assoc _ _ _)).trans List.perm_append_comm)
      (fun member hmember => decide_eq_true (hothers member hmember))
      fun member hmember => by simpa using htimes member hmember
  refine ⟨ms, rfl, eq_of_perm_timestampMember htime, contrast, hcontrast, _, added, rfl, hpanel, ?_⟩
  intro member hmember
  obtain ⟨hname, hsimple⟩ := hadded member hmember
  exact ⟨fun hpanel => hname (List.mem_append_left _ hpanel), hsimple⟩

theorem PartOf.isExact {s : Session} {kept : Panel.Kept} {j : Json} (h : s.PartOf kept j) :
    j.isExact := by
  obtain ⟨contrast, hcontrast, hsession⟩ := h
  refine hsession.isExact (List.forall_mem_append.mpr ⟨?_, isExact_timestampMember _⟩)
  exact Panel.isExact_membersWith hcontrast

theorem PartOf.sift {s : Session} {kept : Panel.Kept} {ms : List (String × Json)}
    (h : s.PartOf kept (.map ms)) :
    ∀ member ∈ ms, member.2.node.sift depthLimit = .ok member.2.node := by
  obtain ⟨contrast, hcontrast, hsession⟩ := h
  have hpanel : ∀ member ∈ s.panel.membersWith contrast,
      member.2.node.sift depthLimit = .ok member.2.node :=
    Panel.forall_mem_membersWith (P := fun k => k.node.sift depthLimit = .ok k.node)
      s.panel.sift_members (hcontrast.sift (s.panel.contrast.sift_members _))
  have htime : ∀ member ∈ timestampMember s.timestamp,
      member.2.node.sift depthLimit = .ok member.2.node := by
    cases s.timestamp <;> simp [timestampMember, Json.node, Node.sift]
  obtain ⟨_, ⟨⟩, hms⟩ := hsession.forall_mem (P := fun k => k.node.sift depthLimit = .ok k.node)
    (List.forall_mem_append.mpr ⟨hpanel, htime⟩) fun _ hk => hk.sift depthLimit
  exact hms

theorem PartOf.ofNode {s : Session} {kept : Panel.Kept} {j : Json} (h : s.PartOf kept j) :
    ofNode j.node = .ok (s.only kept) := by
  obtain ⟨ms, rfl, htime, hpanel⟩ := h.exists_others
  have hread : Panel.ofNode .sifted (.map (Json.memberNodes
      (ms.filter fun member => member.1 ≠ "timestamp"))) = .ok (s.panel.only kept) :=
    hpanel.ofNode .sifted
  have hjoin : ∀ timestamp : Option String, (timestamp.map some).join = timestamp := by
    intro timestamp
    cases timestamp <;> rfl
  change ofMembers (Json.memberNodes ms) = _
  rw [ofMembers, foldlM_siftMember_of_timestamp htime h.sift]
  change (do
    let panel ← Panel.ofNode .sifted (.map (Json.memberNodes _).reverse.reverse)
    return { panel, timestamp := (Option.map some (s.only kept).timestamp).join }) =
      Except.ok (s.only kept)
  rw [List.reverse_reverse, hread, hjoin]
  rfl

end Session

namespace SplitSession

def names : List String :=
  ["leftPanel", "rightPanel", "timestamp"]

/-- Which fields of a split session are kept, and of its panels. -/
structure Kept where
  own : String → Bool
  left : Panel.Kept
  right : Panel.Kept

/-- The fields that are kept, and for the others their defaults. -/
def only (s : SplitSession) (kept : Kept) : SplitSession :=
  { left := if kept.own "leftPanel" then s.left.only kept.left else .documented
    right := if kept.own "rightPanel" then s.right.only kept.right else .documented
    timestamp := if kept.own "timestamp" then s.timestamp else none }

/-- A map with what is kept of a split session. -/
def PartOf (s : SplitSession) (kept : Kept) (j : Json) : Prop :=
  ∃ left right : Json, s.left.PartOf kept.left left ∧ s.right.PartOf kept.right right ∧
    j.Retains ([("leftPanel", left), ("rightPanel", right)] ++ timestampMember s.timestamp) names
      kept.own

variable {s : SplitSession} {kept : Kept} {j : Json}

theorem PartOf.isExact (h : s.PartOf kept j) : j.isExact := by
  obtain ⟨left, right, hleft, hright, hsession⟩ := h
  refine hsession.isExact (List.forall_mem_append.mpr ⟨?_, isExact_timestampMember _⟩)
  simp only [List.forall_mem_cons]
  exact ⟨hleft.isExact, hright.isExact, by simp⟩

/-- A session without a timestamp is read without one, whether the field counts as kept or not. -/
theorem join_given_timestamp {timestamp : Option String} {seen : List String}
    {keep : String → Bool}
    (h : ∀ name ∈ (timestampMember timestamp).map Prod.fst, name ∈ seen ↔ keep name) :
    (Slot.given seen "timestamp" timestamp).join =
      if keep "timestamp" then timestamp else none := by
  cases timestamp with
  | none => by_cases hmem : "timestamp" ∈ seen <;> simp [Slot.given, hmem]
  | some time =>
      have hkeep : "timestamp" ∈ seen ↔ keep "timestamp" :=
        h "timestamp" (List.mem_singleton_self _)
      rw [Slot.given]
      simp only [hkeep]
      split <;> rfl

theorem PartOf.ofNode (h : s.PartOf kept j) (origin : Origin) :
    ofNode origin j.node = .ok (s.only kept) := by
  obtain ⟨left, right, hleft, hright, hsession⟩ := h
  have htaken := takenBy_of_panels
    (s := ⟨s.left.only kept.left, s.right.only kept.right, s.timestamp⟩)
    (hleft.ofNode origin) (hright.ofNode origin)
  have hnodup : (([("leftPanel", left), ("rightPanel", right)] ++
      timestampMember s.timestamp).map Prod.fst).Nodup := by
    cases s.timestamp <;> simp [timestampMember]
  have hslots : j.Retains ([("leftPanel", left), ("rightPanel", right)] ++
      timestampMember s.timestamp) ((slots origin).map Slot.name) kept.own :=
    hsession
  obtain ⟨seen, hread, hseen⟩ := hslots.exists_readRecord htaken hnodup origin
  rw [List.map_append, List.forall_mem_append] at hseen
  obtain ⟨hpanels, htimestamp⟩ := hseen
  simp only [List.map_cons, List.forall_mem_cons] at hpanels
  obtain ⟨hleftSeen, hrightSeen, -⟩ := hpanels
  refine bind_eq_ok_iff.mpr ⟨_, hread, ?_⟩
  change Except.ok (SplitSession.mk ((Slot.given seen "leftPanel" (s.left.only kept.left)).getD {})
    ((Slot.given seen "rightPanel" (s.right.only kept.right)).getD {})
    (Slot.given seen "timestamp" s.timestamp).join) = Except.ok (s.only kept)
  rw [Slot.getD_given hleftSeen, Slot.getD_given hrightSeen, join_given_timestamp htimestamp]
  rfl

end SplitSession

/-- Of a session or a split session any fields may be missing from a document, from the panels and
contrasts within it too; those left may stand in any order and among unknown fields with simple
values. The document is read as the session with just the missing fields at their defaults. -/
theorem documents_read_in_part :
    (∀ (s : Session) (kept : Panel.Kept) (j : Json), s.PartOf kept j →
      ∀ text ∈ j.texts, Saved.ofJson text = Except.ok (s.only kept)) ∧
    (∀ (s : SplitSession) (kept : SplitSession.Kept) (j : Json), s.PartOf kept j →
      ∀ text ∈ j.texts, Saved.ofJson text = Except.ok (s.only kept)) := by
  constructor
  · intro s kept j h text htext
    exact Saved.ofJson_texts h.isExact h.ofNode htext
  · intro s kept j h text htext
    exact Saved.ofJson_texts h.isExact (h.ofNode .json) htext

/-- In reverse order, and with an unknown field in a contrast, in a session and in a panel. -/
theorem documents_read_in_part_reversed :
    Saved.ofJson ("\x7b\"note\":null,\"contrastStretch\":\x7b\"far\":-9223372036854775808," ++
        "\"min\":10\x7d,\"seed\":7\x7d") =
      Except.ok ({ panel := { seed := 7, contrast := { min := 10 } } } : Session) ∧
    Saved.ofJson "\x7b\"timestamp\":\"1\",\"leftPanel\":\x7b\"timestamp\":true,\"seed\":7\x7d\x7d" =
      Except.ok ({ left := { seed := 7 }, timestamp := some "1" } : SplitSession) := by
  let p : Panel := { equation := "x + 1", seed := 7, contrast := { enabled := true, min := 10 } }
  let contrast : Json := .map [("far", .int (-2 ^ 63)), ("min", .int 10)]
  have hsession : ({ panel := p } : Session).PartOf
      { own := (· ∈ ["seed", "contrastStretch"]), contrast := (· = "min") }
      (.map [("note", .null), ("contrastStretch", contrast), ("seed", .int 7)]) := by
    refine ⟨contrast, ⟨_, [("far", .int (-2 ^ 63))], rfl, List.Perm.swap _ _ _, ?_⟩,
      _, [("note", .null)], rfl, ?_, ?_⟩
    · simp [Contrast.names, Json.Simple.int]
    · exact List.reverse_perm [("seed", Json.int 7), ("contrastStretch", contrast), ("note", .null)]
    · simp [Session.names, Panel.names, Json.Simple.null]
  have hsplit : ({ left := p, right := p, timestamp := some "1" } : SplitSession).PartOf
      { own := (· ≠ "rightPanel"), left := { own := (· = "seed"), contrast := fun _ => true },
        right := { own := fun _ => true, contrast := fun _ => true } }
      (.map [("timestamp", .text "1"),
        ("leftPanel", .map [("timestamp", .bool true), ("seed", .int 7)])]) := by
    refine ⟨_, p.toJson, ⟨p.contrast.toJson, .refl _ _, _, [("timestamp", .bool true)], rfl,
      List.Perm.swap _ _ _, ?_⟩, p.partOf_toJson, _, [], rfl, List.Perm.swap _ _ _, by simp⟩
    simp [Panel.names, Json.Simple.bool]
  obtain ⟨hread, hreadSplit⟩ := documents_read_in_part
  exact ⟨hread _ _ _ hsession _ (List.mem_cons.mpr (.inl (by decide +kernel))),
    hreadSplit _ _ _ hsplit _ (List.mem_cons.mpr (.inl (by decide +kernel)))⟩

end OrbitImage
