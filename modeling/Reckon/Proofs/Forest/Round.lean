import Reckon.Proofs.Forest.Derivation
import Reckon.Proofs.Sequencing

/-!
# What one round builds

A round returns the entries that its rules make over the seated nodes and that are due: in the first
round all of them, later those with a child from the round before. The first entry of each key is
one that its rule builds. If no test and no production of the rules fails on what it meets, and no
rule is without items, the round returns.
-/

set_option autoImplicit false

namespace Reckon

open Sequencing Forest

variable {α : Type}

namespace Layout

def onward (l : Layout α) (findings : List (Finding α)) (seats : List (Seat α)) (stop : Nat) :
    Layout α :=
  ⟨l.start, stop, findings.reverse ++ l.findings, seats.reverse ++ l.children⟩

theorem onward_nil (l : Layout α) : l.onward [] [] l.pos = l := rfl

theorem onward_match (l : Layout α) (m : Pattern.Match) (findings : List (Finding α))
    (seats : List (Seat α)) (stop : Nat) :
    (l.withMatch m).onward findings seats stop = l.onward (.text m :: findings) seats stop := by
  simp [onward, withMatch]

theorem onward_seat (l : Layout α) (seat : Seat α) (findings : List (Finding α))
    (seats : List (Seat α)) (stop : Nat) :
    (l.withSeat seat).onward findings seats stop =
      l.onward (.value seat.node.value :: findings) (seat :: seats) stop := by
  simp [onward, withSeat]

theorem onward_first_match (m : Pattern.Match) (findings : List (Finding α))
    (seats : List (Seat α)) (stop : Nat) :
    (Layout.mk m.start m.stop [.text m] []).onward findings seats stop =
      ⟨m.start, stop, (.text m :: findings).reverse, seats.reverse⟩ := by
  simp [onward]

theorem onward_first_seat (seat : Seat α) (start pos : Nat) (findings : List (Finding α))
    (seats : List (Seat α)) (stop : Nat) :
    (Layout.mk start pos [.value seat.node.value] [seat]).onward findings seats stop =
      ⟨start, stop, (.value seat.node.value :: findings).reverse, (seat :: seats).reverse⟩ := by
  simp [onward]

theorem is_due_iff (l : Layout α) (firstRound : Bool) :
    l.isDue firstRound = true ↔ firstRound = true ∨ ∃ seat ∈ l.children, seat.isNew = true := by
  simp [isDue]

theorem complete_ok_iff (text : Array Char) (r : Rule α) (start stop : Nat)
    (findings : List (Finding α)) (seats : List (Seat α)) (e : Entry α) :
    Layout.complete (Text.byteOffsets text) r ⟨start, stop, findings.reverse, seats.reverse⟩ =
        .ok (some e) ↔
      ∃ value, r.produce findings = .ok (some value) ∧ start < stop ∧
        e = ⟨.mk r.name ⟨start, stop⟩ ⟨byteAt text start, byteAt text stop⟩ value
          (seats.map (·.node)), seats.map (·.place)⟩ := by
  simp only [Layout.complete, List.reverse_reverse, bind_ok_iff]
  constructor
  · rintro ⟨outcome, made, rest⟩
    cases outcome with
    | none => cases rest
    | some value =>
        simp only at rest
        split at rest
        · cases rest
        · rename_i ahead
          cases rest
          refine ⟨value, made, by omega, ?_⟩
          simp [byteAt, parts]
  · rintro ⟨value, made, ahead, same⟩
    refine ⟨some value, made, ?_⟩
    have notBehind : ¬stop ≤ start := by omega
    simp only [if_neg notBehind, same]
    simp [byteAt, parts, pure, Except.pure]

theorem complete_returns (l : Layout α) {r : Rule α} (offsets : Array Nat) {outcome : Option α}
    (made : r.produce l.findings.reverse = .ok outcome) :
    ∃ entry, l.complete offsets r = .ok entry := by
  simp only [Layout.complete, made, ok_bind]
  cases outcome with
  | none => exact ⟨_, rfl⟩
  | some value =>
      simp only
      split
      · exact ⟨_, rfl⟩
      · exact ⟨_, rfl⟩

end Layout

namespace Forest

/-! The first entry of a key. -/

/-- An entry is the first one of a list that has its key. -/
def Earliest (e : Entry α) (es : List (Entry α)) : Prop :=
  es.find? (fun other => keyOf other == keyOf e) = some e

theorem Earliest.mem {e : Entry α} {es : List (Entry α)} (earliest : Earliest e es) : e ∈ es :=
  List.mem_of_find?_eq_some earliest

/-- The first entry of its key in a traversal is that of the results of one input, and has another
key than the results of the inputs before. -/
theorem Earliest.traversed {β : Type} {f : β → Except Failure (List (Entry α))} {inputs : List β}
    {outputs : List (List (Entry α))} {e : Entry α} (earliest : Earliest e outputs.flatten)
    (ran : inputs.mapM f = .ok outputs) :
    ∃ first input rest made, inputs = first ++ input :: rest ∧ f input = .ok made ∧
      Earliest e made ∧ ∀ other ∈ first, ∃ es, f other = .ok es ∧
        ∀ entry ∈ es, keyOf entry ≠ keyOf e := by
  rw [Earliest, List.find?_flatten, List.findSome?_eq_some_iff] at earliest
  obtain ⟨before, made, after, rfl, here, none⟩ := earliest
  obtain ⟨first, input, rest, same, head, firsts⟩ := map_m_split f inputs ran
  refine ⟨first, input, rest, made, same, head, here, fun other member => ?_⟩
  obtain ⟨es, returned⟩ := map_m_each f first before firsts other member
  refine ⟨es, returned, fun entry inside => ?_⟩
  obtain ⟨block, belongs, listed⟩ : ∃ block ∈ before, entry ∈ block :=
    List.mem_flatten.mp
      ((mem_flatten_map_m f first before firsts entry).mpr ⟨other, member, es, returned, inside⟩)
  have different := List.find?_eq_none.mp (none block belongs) entry listed
  simpa using different

end Forest

namespace Stage

/-- A stage over a text whose seats are filed under the places where their nodes start. -/
structure Filed (s : Stage α) (text : Array Char) : Prop where
  text_eq : s.text = text
  offsets_eq : s.offsets = Text.byteOffsets text
  seatsAt_iff : ∀ pos seat, seat ∈ s.seatsAt pos ↔ seat ∈ s.seats ∧ seat.node.chars.start = pos
  starts : ∀ seat ∈ s.seats, 0 ≤ seat.node.chars.start

/-- An entry that is due comes of laying the remaining items over the text and the seats, after a
layout. -/
def Completes (s : Stage α) (text : Array Char) (r : Rule α) (items : List (Item α)) (l : Layout α)
    (e : Entry α) : Prop :=
  ∃ findings seats stop,
    Laid text items l.pos findings (seats.map (·.node)) stop ∧ (∀ seat ∈ seats, seat ∈ s.seats) ∧
      (l.onward findings seats stop).isDue s.firstRound = true ∧
      (l.onward findings seats stop).complete (Text.byteOffsets text) r = .ok (some e)

def Spreads (s : Stage α) (text : Array Char) (r : Rule α) (items : List (Item α)) (e : Entry α) :
    Prop :=
  ∃ (start : Nat) (findings : List (Finding α)) (seats : List (Seat α)) (stop : Nat),
    Spread text items start findings (seats.map (·.node)) stop ∧ (∀ seat ∈ seats, seat ∈ s.seats) ∧
      (Layout.mk start stop findings.reverse seats.reverse).isDue s.firstRound = true ∧
      (Layout.mk start stop findings.reverse seats.reverse).complete (Text.byteOffsets text) r =
        .ok (some e)

section Items

variable {s : Stage α} {text : Array Char} {r : Rule α} {rest : List (Item α)} {l : Layout α}
  {e : Entry α}

theorem completes_nil_iff :
    s.Completes text r [] l e ↔
      l.isDue s.firstRound = true ∧ l.complete (Text.byteOffsets text) r = .ok (some e) := by
  constructor
  · rintro ⟨findings, seats, stop, laid, -, due, completed⟩
    cases seats with
    | nil =>
        cases laid
        rw [l.onward_nil] at due completed
        exact ⟨due, completed⟩
    | cons seat seats => cases laid
  · rintro ⟨due, completed⟩
    exact ⟨[], [], l.pos, .done _, by simp, due, completed⟩

theorem completes_text_iff {p : Pattern} :
    s.Completes text r (.text p :: rest) l e ↔
      ∃ m, p.matchAt text (Text.gapEnd text l.pos) = some m ∧
        s.Completes text r rest (l.withMatch m) e := by
  constructor
  · rintro ⟨findings, seats, stop, laid, seated, due, completed⟩
    cases laid with
    | @text _ _ _ _ m later _ found laidLater =>
        rw [← l.onward_match] at due completed
        exact ⟨m, found, later, seats, stop, laidLater, seated, due, completed⟩
  · rintro ⟨m, found, findings, seats, stop, laid, seated, due, completed⟩
    rw [l.onward_match] at due completed
    exact ⟨.text m :: findings, seats, stop, .text found laid, seated, due, completed⟩

theorem completes_value_iff {test : α → Except Failure Bool} :
    s.Completes text r (.value test :: rest) l e ↔
      ∃ seat ∈ s.seats, seat.node.chars.start = Text.gapEnd text l.pos ∧
        test seat.node.value = .ok true ∧ s.Completes text r rest (l.withSeat seat) e := by
  constructor
  · rintro ⟨findings, seats, stop, laid, seated, due, completed⟩
    cases seats with
    | nil => cases laid
    | cons seat seats =>
        obtain ⟨member, others⟩ := List.forall_mem_cons.mp seated
        cases laid with
        | @value _ _ _ _ _ later _ begins passed laidLater =>
            rw [← l.onward_seat] at due completed
            exact ⟨seat, member, begins, passed, later, seats, stop, laidLater, others, due,
              completed⟩
  · rintro ⟨seat, member, begins, passed, findings, seats, stop, laid, seated, due, completed⟩
    rw [l.onward_seat] at due completed
    exact ⟨.value seat.node.value :: findings, seat :: seats, stop, .value begins passed laid,
      List.forall_mem_cons.mpr ⟨member, seated⟩, due, completed⟩

theorem spreads_text_iff {p : Pattern} :
    s.Spreads text r (.text p :: rest) e ↔
      ∃ m ∈ p.findAll text, s.Completes text r rest ⟨m.start, m.stop, [.text m], []⟩ e := by
  constructor
  · rintro ⟨start, findings, seats, stop, spread, seated, due, completed⟩
    cases spread with
    | @text _ _ _ _ m later _ matched begins laid =>
        subst begins
        rw [← Layout.onward_first_match] at due completed
        exact ⟨m, matched, later, seats, stop, laid, seated, due, completed⟩
  · rintro ⟨m, matched, findings, seats, stop, laid, seated, due, completed⟩
    rw [Layout.onward_first_match] at due completed
    exact ⟨m.start, .text m :: findings, seats, stop, .text matched rfl laid, seated, due,
      completed⟩

theorem spreads_value_iff (filed : s.Filed text) {test : α → Except Failure Bool} :
    s.Spreads text r (.value test :: rest) e ↔
      ∃ seat ∈ s.seats, test seat.node.value = .ok true ∧
        s.Completes text r rest ⟨seat.node.chars.start.toNat, seat.node.chars.stop.toNat,
          [.value seat.node.value], [seat]⟩ e := by
  constructor
  · rintro ⟨start, findings, seats, stop, spread, seated, due, completed⟩
    cases seats with
    | nil => cases spread
    | cons seat seats =>
        obtain ⟨member, others⟩ := List.forall_mem_cons.mp seated
        cases spread with
        | @value _ _ _ _ _ later _ begins passed laid =>
            have place : start = seat.node.chars.start.toNat := by
              rw [show seat.node.chars.start = start from begins, Int.toNat_natCast]
            subst place
            rw [← Layout.onward_first_seat] at due completed
            exact ⟨seat, member, passed, later, seats, stop, laid, others, due, completed⟩
  · rintro ⟨seat, member, passed, findings, seats, stop, laid, seated, due, completed⟩
    have begins := Int.toNat_of_nonneg (filed.starts seat member)
    rw [Layout.onward_first_seat] at due completed
    exact ⟨seat.node.chars.start.toNat, .value seat.node.value :: findings, seat :: seats, stop,
      .value begins.symm passed laid, List.forall_mem_cons.mpr ⟨member, seated⟩, due, completed⟩

end Items

theorem mem_tried (test : α → Except Failure Bool)
    (next : Seat α → Except Failure (List (Entry α))) (seats : List (Seat α))
    (found : List (List (Entry α)))
    (ran : (seats.mapM fun seat => do
      if ← test seat.node.value then next seat else return []) = .ok found) (e : Entry α) :
    e ∈ found.flatten ↔ ∃ seat ∈ seats, test seat.node.value = .ok true ∧
      ∃ made, next seat = .ok made ∧ e ∈ made := by
  rw [mem_flatten_map_m _ _ _ ran]
  constructor
  · rintro ⟨seat, member, made, tried, inside⟩
    obtain ⟨verdict, tested, branch⟩ := (bind_ok_iff _ _ _).mp tried
    cases verdict with
    | false =>
        cases branch
        simp at inside
    | true => exact ⟨seat, member, tested, made, branch, inside⟩
  · rintro ⟨seat, member, passed, made, branch, inside⟩
    refine ⟨seat, member, made, ?_, inside⟩
    rw [passed]
    exact branch

theorem next_of_tried (test : α → Except Failure Bool)
    (next : Seat α → Except Failure (List (Entry α))) (seats : List (Seat α))
    (found : List (List (Entry α)))
    (ran : (seats.mapM fun seat => do
      if ← test seat.node.value then next seat else return []) = .ok found) (seat : Seat α)
    (member : seat ∈ seats) (passed : test seat.node.value = .ok true) :
    ∃ made, next seat = .ok made := by
  obtain ⟨made, tried⟩ := map_m_each _ _ _ ran seat member
  rw [passed] at tried
  exact ⟨made, tried⟩

/-- Extending a layout completes every way to lay the remaining items over the seats, and nothing
else. -/
theorem mem_extend (s : Stage α) (text : Array Char) (filed : s.Filed text) (r : Rule α)
    (items : List (Item α)) (l : Layout α) (es : List (Entry α))
    (ran : s.extend r items l = .ok es) (e : Entry α) :
    e ∈ es ↔ s.Completes text r items l e := by
  induction items generalizing l es with
  | nil =>
      rw [completes_nil_iff]
      rw [extend] at ran
      by_cases due : l.isDue s.firstRound = true
      · rw [if_pos due] at ran
        obtain ⟨outcome, completed, listed⟩ := (bind_ok_iff _ _ _).mp ran
        cases listed
        rw [filed.offsets_eq] at completed
        rw [Option.mem_toList, completed, Except.ok.injEq]
        exact (and_iff_right due).symm
      · rw [if_neg due] at ran
        cases ran
        simp [due]
  | cons item rest ih =>
      cases item with
      | text p =>
          rw [completes_text_iff]
          rw [extend, filed.text_eq] at ran
          split at ran
          · rename_i m found
            rw [ih (l.withMatch m) es ran, found]
            simp
          · rename_i missing
            cases ran
            rw [missing]
            simp
      | value test =>
          rw [completes_value_iff]
          rw [extend, filed.text_eq] at ran
          obtain ⟨found, traversed, listed⟩ := (bind_ok_iff _ _ _).mp ran
          cases listed
          rw [mem_tried _ _ _ _ traversed]
          constructor
          · rintro ⟨seat, here, passed, made, branch, inside⟩
            obtain ⟨member, begins⟩ := (filed.seatsAt_iff _ _).mp here
            exact ⟨seat, member, begins, passed, (ih (l.withSeat seat) made branch).mp inside⟩
          · rintro ⟨seat, member, begins, passed, completes⟩
            have here := (filed.seatsAt_iff _ seat).mpr ⟨member, begins⟩
            obtain ⟨made, branch⟩ := next_of_tried _ _ _ _ traversed seat here passed
            exact ⟨seat, here, passed, made, branch,
              (ih (l.withSeat seat) made branch).mpr completes⟩

theorem mem_entries_of_spread (s : Stage α) (text : Array Char) (filed : s.Filed text) (r : Rule α)
    (es : List (Entry α)) (ran : s.entriesOf r = .ok es) (e : Entry α) :
    e ∈ es ↔ s.Spreads text r r.items e := by
  rw [entriesOf] at ran
  split at ran
  · cases ran
  · rename_i p rest items
    rw [items, spreads_text_iff]
    rw [filed.text_eq] at ran
    obtain ⟨found, traversed, listed⟩ := (bind_ok_iff _ _ _).mp ran
    cases listed
    rw [mem_flatten_map_m _ _ _ traversed]
    constructor
    · rintro ⟨m, matched, made, extended, inside⟩
      exact ⟨m, matched, (mem_extend s text filed r rest _ made extended e).mp inside⟩
    · rintro ⟨m, matched, completes⟩
      obtain ⟨made, extended⟩ := map_m_each _ _ _ traversed m matched
      exact ⟨m, matched, made, extended,
        (mem_extend s text filed r rest _ made extended e).mpr completes⟩
  · rename_i test rest items
    rw [items, spreads_value_iff filed]
    obtain ⟨found, traversed, listed⟩ := (bind_ok_iff _ _ _).mp ran
    cases listed
    rw [mem_tried _ _ _ _ traversed]
    constructor
    · rintro ⟨seat, member, passed, made, branch, inside⟩
      exact ⟨seat, member, passed, (mem_extend s text filed r rest _ made branch e).mp inside⟩
    · rintro ⟨seat, member, passed, completes⟩
      obtain ⟨made, branch⟩ := next_of_tried _ _ _ _ traversed seat member passed
      exact ⟨seat, member, passed, made, branch,
        (mem_extend s text filed r rest _ made branch e).mpr completes⟩

structure IsDueOver (s : Stage α) (e : Entry α) (seats : List (Seat α)) : Prop where
  children : e.node.children = seats.map (·.node)
  parts : e.parts = seats.map (·.place)
  seated : ∀ seat ∈ seats, seat ∈ s.seats
  due : s.firstRound = true ∨ ∃ seat ∈ seats, seat.isNew = true

section Made

variable {s : Stage α} {text : Array Char} {r : Rule α} {start stop : Nat}
  {findings : List (Finding α)} {seats : List (Seat α)} {e : Entry α}

theorem makes_of_complete (spread : Spread text r.items start findings (seats.map (·.node)) stop)
    (seated : ∀ seat ∈ seats, seat ∈ s.seats)
    (due : (Layout.mk start stop findings.reverse seats.reverse).isDue s.firstRound = true)
    (completed : (Layout.mk start stop findings.reverse seats.reverse).complete
      (Text.byteOffsets text) r = .ok (some e)) :
    Makes text r findings e.node ∧ s.IsDueOver e seats := by
  obtain ⟨value, made, ahead, same⟩ := (Layout.complete_ok_iff _ _ _ _ _ _ _).mp completed
  rw [Layout.is_due_iff] at due
  subst same
  refine ⟨⟨start, stop, value, spread, made, ahead, rfl⟩, rfl, rfl, seated, ?_⟩
  simpa using due

theorem complete_of_makes (makes : Makes text r findings e.node) (placed : s.IsDueOver e seats) :
    ∃ start stop, Spread text r.items start findings (seats.map (·.node)) stop ∧
      (Layout.mk start stop findings.reverse seats.reverse).isDue s.firstRound = true ∧
      (Layout.mk start stop findings.reverse seats.reverse).complete (Text.byteOffsets text) r =
        .ok (some e) := by
  obtain ⟨start, stop, value, spread, made, ahead, shape⟩ := makes
  rw [placed.children] at spread shape
  refine ⟨start, stop, spread, ?_, ?_⟩
  · rw [Layout.is_due_iff]
    simpa using placed.due
  · rw [Layout.complete_ok_iff]
    refine ⟨value, made, ahead, ?_⟩
    rw [← shape, ← placed.parts]

end Made

theorem mem_entries_of (s : Stage α) (text : Array Char) (filed : s.Filed text) (r : Rule α)
    (es : List (Entry α)) (ran : s.entriesOf r = .ok es) (e : Entry α) :
    e ∈ es ↔ (∃ findings, Makes text r findings e.node) ∧ ∃ seats, s.IsDueOver e seats := by
  rw [mem_entries_of_spread s text filed r es ran]
  constructor
  · rintro ⟨start, findings, seats, stop, spread, seated, due, completed⟩
    obtain ⟨makes, placed⟩ := makes_of_complete spread seated due completed
    exact ⟨⟨findings, makes⟩, seats, placed⟩
  · rintro ⟨⟨findings, makes⟩, seats, placed⟩
    obtain ⟨start, stop, spread, due, completed⟩ := complete_of_makes makes placed
    exact ⟨start, findings, seats, stop, spread, placed.seated, due, completed⟩

section Behind

variable {s : Stage α} {text : Array Char} {r : Rule α} {p : Pattern} {rest : List (Item α)}
  {m : Pattern.Match} {findings : List (Finding α)} {node : Node α} {e : Entry α}
  {seats : List (Seat α)} {es : List (Entry α)}

theorem mem_of_makes (filed : s.Filed text) (items : r.items = .text p :: rest)
    (makes : Makes text r (.text m :: findings) e.node) (placed : s.IsDueOver e seats)
    (extended : s.extend r rest ⟨m.start, m.stop, [.text m], []⟩ = .ok es) : e ∈ es := by
  obtain ⟨start, stop, spread, due, completed⟩ := complete_of_makes makes placed
  rw [items] at spread
  cases spread with
  | text found begins laid =>
      subst begins
      rw [← Layout.onward_first_match] at due completed
      exact (mem_extend s text filed r rest _ es extended e).mpr
        ⟨findings, seats, stop, laid, placed.seated, due, completed⟩

/-- The first entry of its key that a rule makes is one that it builds: of the entries of the same
range and children, those behind an empty match come first. -/
theorem builds_of_earliest (filed : s.Filed text) (ran : s.entriesOf r = .ok es)
    (earliest : Earliest e es) : Builds text r e.node := by
  have member := (mem_entries_of s text filed r es ran e).mp earliest.mem
  rw [entriesOf] at ran
  split at ran
  · cases ran
  · rename_i p rest items
    rw [filed.text_eq] at ran
    obtain ⟨found, traversed, listed⟩ := (bind_ok_iff _ _ _).mp ran
    cases listed
    obtain ⟨first, m, later, made, split, extended, here, before⟩ := earliest.traversed traversed
    obtain ⟨findings, seats, stop, laid, seated, due, completed⟩ :=
      (mem_extend s text filed r rest _ made extended e).mp here.mem
    rw [Layout.onward_first_match] at due completed
    have matched : m ∈ p.findAll text := by
      rw [split]
      exact List.mem_append_right _ List.mem_cons_self
    have spread : Spread text r.items m.start (.text m :: findings) (seats.map (·.node)) stop :=
      items ▸ .text matched rfl laid
    obtain ⟨makes, placed⟩ := makes_of_complete spread seated due completed
    refine ⟨.text m :: findings, makes, or_iff_not_imp_left.mpr fun filled => ?_⟩
    intro others other makesToo empty chars children
    obtain ⟨n, more, rfl, still⟩ := exists_of_opens_empty empty
    obtain ⟨matchedToo, place⟩ := makesToo.opening items
    have start : n.start = m.start := by
      rw [chars, (makes.opening items).2] at place
      exact (Int.ofNat_inj.mp place).symm
    -- the empty match stands before this one, and so does the entry behind it
    have ordered := Pattern.find_all_ordered text p
    rw [split] at matchedToo ordered
    rcases List.mem_append.mp matchedToo with earlier | notEarlier
    · obtain ⟨entries, extendedToo, different⟩ := before n earlier
      have overToo : s.IsDueOver ⟨other, e.parts⟩ seats :=
        ⟨children.trans placed.children, placed.parts, placed.seated, placed.due⟩
      apply different _ (mem_of_makes filed items makesToo overToo extendedToo)
      rw [keyOf, keyOf, chars, makesToo.rule_name, makes.rule_name]
    · rcases List.mem_cons.mp notEarlier with rfl | after
      · exact absurd (decide_eq_true still) filled
      · have precedes := List.rel_of_pairwise_cons (List.pairwise_append.mp ordered).2.1 after
        simp only [opensEmpty, decide_eq_true_eq] at filled
        rcases precedes with ahead | ⟨-, empty, -⟩
        · omega
        · omega
  · rename_i test rest items
    obtain ⟨⟨findings, makes⟩, -⟩ := member
    refine ⟨findings, makes, .inr fun others other makesToo empty => ?_⟩
    rw [makesToo.not_opens_empty items] at empty
    cases empty

end Behind

theorem not_lexical_of_children {text : Array Char} {r : Rule α} {findings : List (Finding α)}
    {node child : Node α} (makes : Makes text r findings node) (member : child ∈ node.children) :
    r.isLexical = false := by
  obtain ⟨start, stop, value, spread, -⟩ := makes
  have found : ∃ test, Item.value test ∈ r.items := by
    generalize node.children = children at spread member
    generalize r.items = items at spread
    have laid_has_test : ∀ {items : List (Item α)} {pos : Nat} {findings : List (Finding α)}
        {children : List (Node α)} {stop : Nat}, Laid text items pos findings children stop →
          child ∈ children → ∃ test, Item.value test ∈ items := by
      intro items pos findings children stop laid inside
      induction laid with
      | done pos => simp at inside
      | text found later ih =>
          obtain ⟨test, belongs⟩ := ih inside
          exact ⟨test, by simp [belongs]⟩
      | @value test rest pos stop node findings children begins passed later ih =>
          exact ⟨test, by simp⟩
    cases spread with
    | text found begins later =>
        obtain ⟨test, belongs⟩ := laid_has_test later member
        exact ⟨test, by simp [belongs]⟩
    | @value test rest start stop node findings children begins passed later =>
        exact ⟨test, by simp⟩
  obtain ⟨test, belongs⟩ := found
  rw [Rule.isLexical, List.all_eq_false]
  exact ⟨.value test, belongs, by simp [Item.isText]⟩

/-- The entries of a round are those that its rules make over the seats and that are due. Lexical
rules can be left out after the first round, as what they make has no children. -/
theorem mem_entries (s : Stage α) (text : Array Char) (filed : s.Filed text)
    (rules : List (Rule α)) (es : List (Entry α)) (ran : s.entries rules = .ok es) (e : Entry α) :
    e ∈ es ↔ (∃ r ∈ rules, ∃ findings, Makes text r findings e.node) ∧
      ∃ seats, s.IsDueOver e seats := by
  rw [entries] at ran
  obtain ⟨found, traversed, listed⟩ := (bind_ok_iff _ _ _).mp ran
  cases listed
  rw [mem_flatten_map_m _ _ _ traversed]
  constructor
  · rintro ⟨r, applied, made, ranRule, inside⟩
    obtain ⟨makes, rest⟩ := (mem_entries_of s text filed r made ranRule e).mp inside
    refine ⟨⟨r, ?_, makes⟩, rest⟩
    split at applied
    · exact applied
    · exact (List.mem_filter.mp applied).1
  · rintro ⟨⟨r, member, findings, makes⟩, seats, placed⟩
    have applied : r ∈ (if s.firstRound then rules else rules.filter fun r => !r.isLexical) := by
      split
      · exact member
      · rename_i later
        rcases placed.due with first | ⟨seat, inside, -⟩
        · exact absurd first later
        · have child : seat.node ∈ e.node.children := by
            rw [placed.children]
            exact List.mem_map_of_mem inside
          rw [List.mem_filter]
          exact ⟨member, by simp [not_lexical_of_children makes child]⟩
    obtain ⟨made, ranRule⟩ := map_m_each _ _ _ traversed r applied
    exact ⟨r, applied, made, ranRule,
      (mem_entries_of s text filed r made ranRule e).mpr ⟨⟨findings, makes⟩, seats, placed⟩⟩

theorem exists_builds_of_earliest {s : Stage α} {text : Array Char} (filed : s.Filed text)
    {rules : List (Rule α)} {es : List (Entry α)} (ran : s.entries rules = .ok es) {e : Entry α}
    (earliest : Earliest e es) : ∃ r ∈ rules, Builds text r e.node := by
  rw [entries] at ran
  obtain ⟨found, traversed, listed⟩ := (bind_ok_iff _ _ _).mp ran
  cases listed
  obtain ⟨first, r, rest, made, split, ranRule, here, -⟩ := earliest.traversed traversed
  have applied : r ∈ (if s.firstRound then rules else rules.filter fun r => !r.isLexical) := by
    rw [split]
    exact List.mem_append_right _ List.mem_cons_self
  refine ⟨r, ?_, builds_of_earliest filed ranRule here⟩
  split at applied
  · exact applied
  · exact (List.mem_filter.mp applied).1

/-! Rounds that return. -/

theorem tried_returns (test : α → Except Failure Bool)
    (next : Seat α → Except Failure (List (Entry α))) (seats : List (Seat α))
    (tests : ∀ seat ∈ seats, ∃ verdict, test seat.node.value = .ok verdict)
    (returns : ∀ seat ∈ seats, test seat.node.value = .ok true → ∃ made, next seat = .ok made) :
    ∃ es, ((seats.mapM fun seat => do
      if ← test seat.node.value then next seat else return []) >>= fun found =>
        pure found.flatten) = .ok es := by
  apply flatten_map_m_returns
  intro seat member
  obtain ⟨verdict, tested⟩ := tests seat member
  rw [tested, ok_bind]
  cases verdict with
  | false => exact ⟨[], rfl⟩
  | true => exact returns seat member tested

theorem extend_returns (s : Stage α) (text : Array Char) (filed : s.Filed text) (r : Rule α)
    (items : List (Item α)) (l : Layout α)
    (tests : ∀ test, Item.value test ∈ items → ∀ seat ∈ s.seats,
      ∃ verdict, test seat.node.value = .ok verdict)
    (productions : ∀ findings (seats : List (Seat α)) stop,
      Laid text items l.pos findings (seats.map (·.node)) stop →
        (∀ seat ∈ seats, seat ∈ s.seats) →
          ∃ outcome, r.produce (l.findings.reverse ++ findings) = .ok outcome) :
    ∃ es, s.extend r items l = .ok es := by
  induction items generalizing l with
  | nil =>
      rw [extend]
      by_cases due : l.isDue s.firstRound = true
      · rw [if_pos due]
        obtain ⟨outcome, made⟩ := productions [] [] l.pos (.done _) (by simp)
        rw [List.append_nil] at made
        obtain ⟨entry, completed⟩ := l.complete_returns s.offsets made
        rw [completed]
        exact ⟨_, rfl⟩
      · rw [if_neg due]
        exact ⟨[], rfl⟩
  | cons item rest ih =>
      cases item with
      | text p =>
          rw [extend, filed.text_eq]
          split
          · rename_i m found
            apply ih (l.withMatch m)
            · intro test member
              exact tests test (by simp [member])
            · intro findings seats stop laid seated
              have made := productions (.text m :: findings) seats stop (.text found laid) seated
              simpa [Layout.withMatch] using made
          · exact ⟨[], rfl⟩
      | value test =>
          rw [extend, filed.text_eq]
          apply tried_returns
          · intro seat here
            exact tests test (by simp) seat ((filed.seatsAt_iff _ _).mp here).1
          · intro seat here passed
            obtain ⟨member, begins⟩ := (filed.seatsAt_iff _ _).mp here
            apply ih (l.withSeat seat)
            · intro other belongs
              exact tests other (by simp [belongs])
            · intro findings seats stop laid seated
              have made := productions (.value seat.node.value :: findings) (seat :: seats) stop
                (.value begins passed laid) (List.forall_mem_cons.mpr ⟨member, seated⟩)
              simpa [Layout.withSeat] using made

theorem entries_of_returns (s : Stage α) (text : Array Char) (filed : s.Filed text) (r : Rule α)
    (some : r.items ≠ [])
    (tests : ∀ test, Item.value test ∈ r.items → ∀ seat ∈ s.seats,
      ∃ verdict, test seat.node.value = .ok verdict)
    (productions : ∀ start findings (seats : List (Seat α)) stop,
      Spread text r.items start findings (seats.map (·.node)) stop →
        (∀ seat ∈ seats, seat ∈ s.seats) → ∃ outcome, r.produce findings = .ok outcome) :
    ∃ es, s.entriesOf r = .ok es := by
  rw [entriesOf]
  split
  · rename_i none
    exact absurd none some
  · rename_i p rest items
    rw [items] at tests productions
    rw [filed.text_eq]
    apply flatten_map_m_returns
    intro m matched
    apply extend_returns s text filed
    · intro test member
      exact tests test (by simp [member])
    · intro findings seats stop laid seated
      exact productions m.start (.text m :: findings) seats stop (.text matched rfl laid) seated
  · rename_i test rest items
    rw [items] at tests productions
    apply tried_returns
    · exact tests test (by simp)
    · intro seat member passed
      apply extend_returns s text filed
      · intro other belongs
        exact tests other (by simp [belongs])
      · intro findings seats stop laid seated
        have begins := Int.toNat_of_nonneg (filed.starts seat member)
        exact productions seat.node.chars.start.toNat (.value seat.node.value :: findings)
          (seat :: seats) stop (.value begins.symm passed laid)
          (List.forall_mem_cons.mpr ⟨member, seated⟩)

end Stage

namespace Forest

/-- No rule is without items, and no test and no production of the rules fails on the derivation
trees of a text. -/
structure Unfailing (rs : RuleSet α) (text : Array Char) : Prop where
  items : ∀ r ∈ rs.rules, r.items ≠ []
  tests : ∀ r ∈ rs.rules, ∀ test, Item.value test ∈ r.items → ∀ node, Derives rs text node →
    ∃ verdict, test node.value = .ok verdict
  productions : ∀ r ∈ rs.rules, ∀ start findings children stop,
    Spread text r.items start findings children stop →
      (∀ child ∈ children, Derives rs text child) → ∃ outcome, r.produce findings = .ok outcome

end Forest

theorem Stage.entries_returns (s : Stage α) (rs : RuleSet α) (text : Array Char)
    (filed : s.Filed text) (unfailing : Unfailing rs text)
    (derived : ∀ seat ∈ s.seats, Derives rs text seat.node) :
    ∃ es, s.entries rs.rules = .ok es := by
  rw [Stage.entries]
  apply flatten_map_m_returns
  intro r applied
  have member : r ∈ rs.rules := by
    split at applied
    · exact applied
    · exact (List.mem_filter.mp applied).1
  apply Stage.entries_of_returns s text filed r (unfailing.items r member)
  · intro test belongs seat seated
    exact unfailing.tests r member test belongs seat.node (derived seat seated)
  · intro start findings seats stop spread seated
    apply unfailing.productions r member start findings _ stop spread
    intro child inside
    obtain ⟨seat, belongs, same⟩ := List.mem_map.mp inside
    rw [← same]
    exact derived seat (seated seat belongs)

end Reckon
