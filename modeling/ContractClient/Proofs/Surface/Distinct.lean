/-
What is different on the surface of a contract.

Constructors and messages are described one after the other, against what was
described before. The names that count are those of the kind at hand, the
selectors those of both kinds. So labels are distinct among the constructors and
among the messages, and selectors are distinct among all of them; but a
constructor and a message may have one label. Events are numbered by their
positions.
-/
import ContractClient.Proofs.Keys
import ContractClient.Proofs.Outcome
import ContractClient.Surface.Analyze

set_option autoImplicit false

namespace ContractClient

section

variable {τ γ : Type} [DecidableEq τ] [DecidableEq γ] [Wording τ γ] {hash : HashFunction} {policy : SelectorPolicy}
  {kind : MethodKind} {seen seen' : Seen τ}

/-! ## One method -/

/-- Whether a descriptor is of a kind, named as its label says, and different
from what was seen. -/
structure Fresh (kind : MethodKind) (seen : Seen τ) (d : MethodDescriptor τ) : Prop where
  kind_eq : d.kind = kind
  named : MethodName.ofLabel d.label = .ok d.name
  name : d.name ∉ seen.names
  selector : ∀ p ∈ seen.selectors, p.1 ≠ d.selector

/-- A descriptor is made only if its name and its selector were not seen
before. -/
theorem describe_fresh {m : Method τ} {d : MethodDescriptor τ} (h : m.describe hash policy kind seen = .ok d) :
    Fresh kind seen d := by
  unfold Method.describe at h
  obtain ⟨name, hname, h⟩ := bind_ok_iff.1 h
  by_cases hseen : seen.names.contains name = true
  · rw [if_pos hseen] at h
    cases h
  rw [if_neg hseen] at h
  obtain ⟨selector, -, h⟩ := bind_ok_iff.1 h
  cases hfind : seen.selectors.find? (·.1 == selector) with
  | some p => simp [hfind] at h
  | none =>
    rw [hfind] at h
    obtain ⟨args, -, heq⟩ := bind_ok_iff.1 h
    cases heq
    refine ⟨rfl, ?_, ?_, ?_⟩
    · show MethodName.ofLabel m.label = .ok name
      exact mapError_ok_iff.1 hname
    · exact fun hmem => hseen (List.contains_iff_mem.2 hmem)
    · intro p hp heq
      exact List.find?_eq_none.1 hfind p hp (by simpa using heq)

/-! ## All methods of a kind -/

/-- What was seen after several descriptors is what was seen before, with their
names and selectors in front. -/
theorem describeAll_seen {ms : List (Method τ)} {ds : List (MethodDescriptor τ)}
    (h : describeAll hash policy kind seen ms = .ok (ds, seen')) :
    ∀ p, p ∈ seen'.selectors ↔ p ∈ seen.selectors ∨ ∃ d ∈ ds, p = (d.selector, d.label) := by
  induction ms generalizing seen ds with
  | nil =>
    cases h
    simp
  | cons m ms ih =>
    rw [describeAll] at h
    obtain ⟨d, hd, h⟩ := bind_ok_iff.1 h
    obtain ⟨⟨ds', seen''⟩, hds, heq⟩ := bind_ok_iff.1 h
    cases heq
    intro p
    -- The others were described with the first one among what is seen.
    rw [ih hds p, Seen.add, List.mem_cons]
    constructor
    · rintro ((rfl | hp) | ⟨d', hd', rfl⟩)
      · exact .inr ⟨d, List.mem_cons_self, rfl⟩
      · exact .inl hp
      · exact .inr ⟨d', List.mem_cons_of_mem _ hd', rfl⟩
    · rintro (hp | ⟨d', hd', rfl⟩)
      · exact .inl (.inr hp)
      · rcases List.mem_cons.1 hd' with rfl | hd'
        · exact .inl (.inl rfl)
        · exact .inr ⟨d', hd', rfl⟩

/-- **Descriptors of one kind are different** from each other and from what was
seen before. The induction is on the methods: each descriptor was admitted
against all before it, and all behind it are fresh with regard to it. -/
theorem describeAll_distinct {ms : List (Method τ)} {ds : List (MethodDescriptor τ)}
    (h : describeAll hash policy kind seen ms = .ok (ds, seen')) :
    (∀ d ∈ ds, Fresh kind seen d) ∧ (ds.map (·.name)).Nodup ∧ (ds.map (·.selector)).Nodup := by
  induction ms generalizing seen ds with
  | nil =>
    cases h
    exact ⟨fun d hd => absurd hd List.not_mem_nil, List.nodup_nil, List.nodup_nil⟩
  | cons m ms ih =>
    rw [describeAll] at h
    obtain ⟨d, hd, h⟩ := bind_ok_iff.1 h
    obtain ⟨⟨ds', seen''⟩, hds, heq⟩ := bind_ok_iff.1 h
    cases heq
    obtain ⟨hfresh, hnames, hselectors⟩ := ih hds
    have hfirst := describe_fresh hd
    refine ⟨List.forall_mem_cons.2 ⟨hfirst, fun d' hd' => ?_⟩, ?_, ?_⟩
    · -- what is different from more is different from less
      have hlater := hfresh d' hd'
      exact ⟨hlater.kind_eq, hlater.named, fun hmem => hlater.name (List.mem_cons_of_mem _ hmem),
        fun p hp => hlater.selector p (List.mem_cons_of_mem _ hp)⟩
    · rw [List.map_cons, List.nodup_cons]
      refine ⟨?_, hnames⟩
      intro hmem
      obtain ⟨d', hd', heq⟩ := List.mem_map.1 hmem
      exact (hfresh d' hd').name (heq ▸ List.mem_cons_self)
    · rw [List.map_cons, List.nodup_cons]
      refine ⟨?_, hselectors⟩
      intro hmem
      obtain ⟨d', hd', heq⟩ := List.mem_map.1 hmem
      exact (hfresh d' hd').selector (d.selector, d.label) List.mem_cons_self heq.symm

omit [DecidableEq τ] in
/-- Where names are distinct and made from labels, labels are distinct. -/
theorem labels_nodup {ds : List (MethodDescriptor τ)}
    (hfresh : ∀ d ∈ ds, Fresh kind seen d) (hnames : (ds.map (·.name)).Nodup) :
    (ds.map (·.label)).Nodup := by
  rw [List.nodup_map_iff_inj_on (List.Nodup.of_map _ hnames)]
  intro d hd d' hd' hlabel
  refine List.inj_on_of_nodup_map hnames hd hd' ?_
  have hname := (hfresh d hd).named
  rw [hlabel, (hfresh d' hd').named] at hname
  exact (Except.ok.inj hname).symm

/-! ## The surface -/

/-- What is known of the constructors and messages of a contract. -/
structure DistinctSurface (constructors messages : List (MethodDescriptor τ)) : Prop where
  constructor_kind : ∀ d ∈ constructors, d.kind = .constructor
  message_kind : ∀ d ∈ messages, d.kind = .message
  constructor_labels : (constructors.map (·.label)).Nodup
  message_labels : (messages.map (·.label)).Nodup
  selectors : ((constructors ++ messages).map (·.selector)).Nodup

/-- **The surface tells its methods apart.** Constructors differ in names and
selectors, so do messages, and over both the selectors differ, as the second
pass has seen those of the first. -/
theorem describe_distinct {s : Surface τ} {constructors messages : List (MethodDescriptor τ)}
    (h : s.describe hash policy = .ok (constructors, messages)) :
    DistinctSurface constructors messages := by
  unfold Surface.describe at h
  obtain ⟨⟨cs, seen⟩, hcs, h⟩ := bind_ok_iff.1 h
  obtain ⟨⟨ms, seen'⟩, hms, heq⟩ := bind_ok_iff.1 h
  cases heq
  obtain ⟨hcfresh, hcnames, hcselectors⟩ := describeAll_distinct hcs
  obtain ⟨hmfresh, hmnames, hmselectors⟩ := describeAll_distinct hms
  refine ⟨fun d hd => (hcfresh d hd).kind_eq, fun d hd => (hmfresh d hd).kind_eq,
    labels_nodup hcfresh hcnames, labels_nodup hmfresh hmnames, ?_⟩
  rw [List.map_append, List.nodup_append]
  refine ⟨hcselectors, hmselectors, ?_⟩
  intro s hs t ht hst
  obtain ⟨c, hc, rfl⟩ := List.mem_map.1 hs
  obtain ⟨d, hd, rfl⟩ := List.mem_map.1 ht
  have hseen : (c.selector, c.label) ∈ seen.selectors :=
    (describeAll_seen hcs _).2 (.inr ⟨c, hc, rfl⟩)
  exact (hmfresh d hd).selector _ hseen hst

end

/-! ## Events -/

/-- Events are numbered by their positions, from the position at which
describing them starts. -/
theorem describeEventsFrom_discriminants {seen : List String} {position : Nat} {events : List Event}
    {ds : List EventDescriptor} (h : describeEventsFrom seen position events = .ok ds) :
    ds.map (·.discriminant) = List.range' position events.length := by
  induction events generalizing seen position ds with
  | nil =>
    cases h
    rfl
  | cons e rest ih =>
    rw [describeEventsFrom] at h
    split at h
    · cases h
    obtain ⟨d, hd, h⟩ := bind_ok_iff.1 h
    obtain ⟨later, hlater, heq⟩ := bind_ok_iff.1 h
    cases heq
    have hposition : d.discriminant = position := by
      unfold Event.describe at hd
      split at hd
      · cases hd
      · cases hd
        rfl
    rw [List.map_cons, hposition, ih hlater, List.length_cons, List.range'_succ]

/-- **The discriminants of events are their positions**, and fit a byte. -/
theorem describeEvents_discriminants {m : Metadata} {ds : List EventDescriptor} (h : m.describeEvents = .ok ds) :
    ds.map (·.discriminant) = List.range ds.length ∧ ds.length ≤ 256 := by
  unfold Metadata.describeEvents at h
  split at h
  · cases h
  next hfew =>
    have hpositions := describeEventsFrom_discriminants h
    have hlength : ds.length = m.events.length := by
      simpa using congrArg List.length hpositions
    rw [hpositions, hlength, List.range_eq_range']
    exact ⟨rfl, Nat.le_of_not_lt hfew⟩

end ContractClient
