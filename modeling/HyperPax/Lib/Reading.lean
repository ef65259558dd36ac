/-
  Lib/Reading.lean --- what comes back of a message written with reversed numbers.

  A decoder that reads forward is run on the bytes of a message (`Forward`).  A number of
  one group is read as it was written; a longer one is taken for its highest group.  So if
  the run ends with the message, every piece of it was short:

  * up to the first long piece the decoder reads what was written (`Forward.passes`);
  * a long piece of a repeated field is added as another piece, and stays;
  * a long piece of a singular field is misread, and the bytes spent on it are then
    missing: what the message still owes is more than the bytes that are left.

  For the same reason a piece of a repeated field that was left out does not come back.
-/
import HyperPax.Lib.Wire

set_option autoImplicit false

namespace HyperPax.Lib

open List Piece

/-! ## The pieces in the order they are written -/

/-- The pieces of a message that are written. -/
def entries (schema : List Slot) (T : View) : List (Slot × Piece) :=
  schema.flatMap fun s => ((T s.num).filter fun p => ¬ s.Omitted p).map fun p => (s, p)

/-- The bytes of pieces. -/
def bytesOf (es : List (Slot × Piece)) : List UInt8 := es.flatMap fun e => e.2.encode e.1.num

/-- The pieces with a field number. -/
def piecesOf (num : Nat) (es : List (Slot × Piece)) : List Piece :=
  (es.filter fun e => e.1.num = num).map Prod.snd

/-- Take up pieces one after another. -/
def absorbAll (es : List (Slot × Piece)) (V : View) : View :=
  es.foldl (fun V e => e.1.absorb e.2 V) V

section

variable {schema : List Slot} {T V : View} {s : Slot}

theorem mem_entries {e : Slot × Piece} :
    e ∈ entries schema T ↔ e.1 ∈ schema ∧ e.2 ∈ T e.1.num ∧ ¬ e.1.Omitted e.2 := by
  obtain ⟨s, p⟩ := e
  simp only [entries, mem_flatMap, mem_map, mem_filter, decide_eq_true_eq,
    Prod.mk.injEq]
  constructor
  · rintro ⟨_, hs', _, ⟨hp', homit⟩, rfl, rfl⟩
    exact ⟨hs', hp', homit⟩
  · rintro ⟨hs, hp, homit⟩
    exact ⟨s, hs, p, ⟨hp, homit⟩, rfl, rfl⟩

theorem flatMap_encode_eq (s : Slot) (ps : List Piece) :
    ps.flatMap s.encode = bytesOf ((ps.filter fun p => ¬ s.Omitted p).map fun p => (s, p)) := by
  induction ps with
  | nil => rfl
  | cons p _ ih =>
    rw [flatMap_cons, ih]
    by_cases homit : s.Omitted p
    · rw [Slot.encode, if_pos homit, filter_cons_of_neg (by simpa using homit)]
      rfl
    · rw [Slot.encode, if_neg homit, filter_cons_of_pos (by simpa using homit)]
      rfl

theorem wire_eq_bytesOf (schema : List Slot) (T : View) :
    wire schema T = bytesOf (entries schema T) := by
  rw [wire, bytesOf, entries, flatMap_assoc]
  simp only [flatMap_encode_eq]
  rfl

theorem content_isInfix_wire {e : Slot × Piece} (he : e ∈ entries schema T) :
    e.2.content <:+: wire schema T := by
  obtain ⟨before, after, hsplit⟩ := append_of_mem he
  rw [wire_eq_bytesOf, hsplit, bytesOf, flatMap_append, flatMap_cons]
  have hpiece : e.2.content <:+ e.2.encode e.1.num :=
    (suffix_append _ _).trans (suffix_cons _ _)
  rw [← append_assoc]
  exact hpiece.isInfix.trans (infix_append _ _ _)

theorem bytesOf_append (es es' : List (Slot × Piece)) :
    bytesOf (es ++ es') = bytesOf es ++ bytesOf es' := flatMap_append

theorem bytesOf_cons (e : Slot × Piece) (es : List (Slot × Piece)) :
    bytesOf (e :: es) = e.2.encode e.1.num ++ bytesOf es := rfl

theorem absorbAll_append (es es' : List (Slot × Piece)) (V : View) :
    absorbAll (es ++ es') V = absorbAll es' (absorbAll es V) := foldl_append

theorem piecesOf_append (num : Nat) (es es' : List (Slot × Piece)) :
    piecesOf num (es ++ es') = piecesOf num es ++ piecesOf num es' := by
  rw [piecesOf, filter_append, map_append]
  rfl

theorem piecesOf_cons_self (s : Slot) (p : Piece) (es : List (Slot × Piece)) :
    piecesOf s.num ((s, p) :: es) = p :: piecesOf s.num es := by
  rw [piecesOf, filter_cons_of_pos (by simp)]
  rfl

section

variable (hnodup : (schema.map Slot.num).Nodup) (hs : s ∈ schema)

include hnodup hs

theorem absorbAll_repeated (hrep : s.repeated) {es : List (Slot × Piece)}
    (hes : ∀ e ∈ es, e.1 ∈ schema) : absorbAll es V s.num = V s.num ++ piecesOf s.num es := by
  induction es generalizing V with
  | nil => exact (append_nil _).symm
  | cons e es ih =>
    have hrest := ih (V := e.1.absorb e.2 V) fun e' he' => hes e' (mem_cons_of_mem _ he')
    have hfirst : absorbAll (e :: es) V = absorbAll es (e.1.absorb e.2 V) := rfl
    rw [hfirst, hrest]
    by_cases hnum : e.1.num = s.num
    · obtain rfl : e.1 = s := inj_on_of_nodup_map hnodup (hes e mem_cons_self) hs hnum
      rw [e.1.absorb_self, if_pos hrep, piecesOf_cons_self, append_assoc]
      rfl
    · rw [Slot.absorb_of_ne (Ne.symm hnum)]
      congr 1
      rw [piecesOf, piecesOf, filter_cons_of_neg (by simpa using hnum)]

theorem piecesOf_entries (hwritten : ∀ p ∈ T s.num, ¬ s.Omitted p) :
    piecesOf s.num (entries schema T) = T s.num := by
  have hslot : piecesOf s.num (((T s.num).filter fun p => ¬ s.Omitted p).map fun p => (s, p)) =
      T s.num := by
    rw [filter_eq_self.mpr (by simpa using hwritten), piecesOf,
      filter_eq_self.mpr (by simp), map_map]
    exact map_id _
  obtain ⟨before, after, rfl⟩ := append_of_mem hs
  -- the other fields have other numbers
  have hother : ∀ schema' : List Slot, (∀ s' ∈ schema', s'.num ≠ s.num) →
      piecesOf s.num (entries schema' T) = [] := by
    intro _ hne
    rw [piecesOf, map_eq_nil_iff, filter_eq_nil_iff]
    intro e he
    simpa using hne e.1 (mem_entries.mp he).1
  rw [map_append, map_cons, nodup_middle, nodup_cons] at hnodup
  have hne : ∀ s' ∈ before ++ after, s'.num ≠ s.num := by
    intro s' hs' heq
    refine hnodup.1 ?_
    rw [← map_append, ← heq]
    exact mem_map_of_mem hs'
  have hsplit : entries (before ++ s :: after) T = entries before T ++
      (((T s.num).filter fun p => ¬ s.Omitted p).map (fun p => (s, p)) ++ entries after T) := by
    rw [entries, flatMap_append, flatMap_cons]
    rfl
  rw [hsplit, piecesOf_append, piecesOf_append, hslot,
    hother before fun s' hs' => hne s' (mem_append_left _ hs'),
    hother after fun s' hs' => hne s' (mem_append_right _ hs'), nil_append,
    append_nil]

end

theorem forall_mem_of_first {α : Type} {P : α → Prop} {l : List α}
    (h : ∀ before a after, l = before ++ a :: after → (∀ b ∈ before, P b) → P a) :
    ∀ a ∈ l, P a := by
  have hfront : ∀ before after, l = before ++ after → ∀ b ∈ before, P b := by
    intro before
    induction before using List.reverseRecOn with
    | nil => exact fun _ _ _ hb => absurd hb not_mem_nil
    | append_singleton before a ih =>
      intro after hl
      rw [append_assoc] at hl
      have hbefore := ih _ hl
      intro b hb
      rw [mem_append, mem_singleton] at hb
      cases hb with
      | inl hb => exact hbefore b hb
      | inr hb =>
        rw [hb]
        exact h before a after hl hbefore
  exact hfront l [] (append_nil l).symm

end

/-! ## Pieces that are left out -/

variable {p : Piece}

theorem Steps.owed_lt {schema : List Slot} {T V V' : View} {n : Nat}
    (hnodup : (schema.map Slot.num).Nodup) (h : Steps schema V n V')
    (hlead : ∀ s ∈ schema, s.repeated → V' s.num <+: T s.num) {s : Slot}
    (hs : s ∈ schema) (hrep : s.repeated) (hp : p ∈ V' s.num) (hnew : p ∉ V s.num)
    (homit : s.Omitted p) : owed schema T V < owed schema T V' + n := by
  induction h with
  | refl => exact absurd hp hnew
  | @head V₁ V₂ V₃ n k hfirst hrest ih =>
    have hle := hrest.owed_le hnodup hlead
    by_cases hadded : p ∈ V₂ s.num
    · -- it is added here
      cases hfirst with
      | skip => exact absurd hadded hnew
      | read s' _ hs' =>
        by_cases hnum : s.num = s'.num
        · obtain rfl : s = s' := inj_on_of_nodup_map hnodup hs hs' hnum
          rw [s.absorb_self, if_pos hrep, mem_append, mem_singleton] at hadded
          obtain rfl := hadded.resolve_left hnew
          have hstep := owed_le_absorb (T := T) hnodup hs (p := p) fun _ =>
            (hrest.isPrefix hnodup hs hrep).trans (hlead s hs hrep)
          rw [Slot.size, if_pos homit] at hstep
          omega
        · rw [Slot.absorb_of_ne hnum] at hadded
          exact absurd hadded hnew
    · have hlt := ih hlead hp hadded
      have hstep := (Steps.single hfirst).owed_le hnodup (T := T) fun s hs hr =>
        (hrest.isPrefix hnodup hs hr).trans (hlead s hs hr)
      omega

/-! ## Decoders -/

section

open Relation

variable {M : Type}

/-- A decoder over `data` that reads forward: from one index and message to the next.  The pieces
of the message `T` are read in the place where they stand. -/
structure Forward (schema : List Slot) (T : View) (view : M → View) (data : List UInt8)
    (step : Nat × M → Nat × M → Prop) : Prop where
  nodup : (schema.map Slot.num).Nodup
  forward : ∀ c d, step c d → c.1 < d.1
  absorbs : ∀ c d, step c d → Absorbs schema (view c.2) (d.1 - c.1) (view d.2)
  reads : ∀ s ∈ schema, ∀ p ∈ T s.num, ∀ front back m d,
    data = front ++ (p.encode s.num ++ back) → step (front.length, m) d →
      ∃ q, view d.2 = s.absorb q (view m) ∧ q.number < 128 ∧
        (p.Short → d.1 = front.length + p.size ∧ (s.repeated = false → q = p))

namespace Forward

variable {schema : List Slot} {T : View} {view : M → View} {data : List UInt8}
  {step : Nat × M → Nat × M → Prop} {m₀ m : M} {n : Nat}

theorem steps (F : Forward schema T view data step) {c d : Nat × M} (h : ReflTransGen step c d) :
    c.1 ≤ d.1 ∧ Steps schema (view c.2) (d.1 - c.1) (view d.2) := by
  induction h with
  | refl =>
    refine ⟨le_refl _, ?_⟩
    rw [Nat.sub_self]
    exact .refl
  | @tail b e _ hstep ih =>
    have hlt := F.forward _ _ hstep
    have hlast := ih.2.trans (.single (F.absorbs _ _ hstep))
    have hsum : b.1 - c.1 + (e.1 - b.1) = e.1 - c.1 := by omega
    rw [hsum] at hlast
    exact ⟨by omega, hlast⟩

end Forward

/-- The decoder, run on the bytes of a message, ends with it. -/
structure ComesBack (schema : List Slot) (T : View) (view : M → View) (data : List UInt8)
    (step : Nat × M → Nat × M → Prop) (m₀ result : M) : Prop where
  decoder : Forward schema T view data step
  written : data = wire schema T
  result_eq : view result = T
  repeated_empty : ∀ s ∈ schema, s.repeated → view m₀ s.num = []
  singular : ∀ s ∈ schema, s.repeated = false →
    ∃ p, T s.num = [p] ∧ (view m₀ s.num = [p] → s.Omitted p)
  run : ReflTransGen step (0, m₀) (data.length, result)

namespace ComesBack

variable {schema : List Slot} {T : View} {view : M → View} {data : List UInt8}
  {step : Nat × M → Nat × M → Prop} {m₀ result : M} {s : Slot}

section

variable (h : ComesBack schema T view data step m₀ result)

include h

theorem isPrefix {c : Nat × M} (hrest : ReflTransGen step c (data.length, result))
    (hs : s ∈ schema) (hrep : s.repeated) : view c.2 s.num <+: T s.num := by
  obtain ⟨-, hsteps⟩ := h.decoder.steps hrest
  have hlead := hsteps.isPrefix h.decoder.nodup hs hrep
  rwa [h.result_eq] at hlead

theorem length_le_owed : data.length ≤ owed schema T (view m₀) := by
  rw [h.written]
  refine owed_initial h.repeated_empty ?_
  intro s hs hsing hsame
  obtain ⟨_, hp, hdefault⟩ := h.singular s hs hsing
  rw [hp] at hsame ⊢
  rw [flatMap_singleton, Slot.encode, if_pos (hdefault hsame)]

end

variable {p : Piece} {before after : List (Slot × Piece)}

theorem not_omitted (h : ComesBack schema T view data step m₀ result) (hs : s ∈ schema)
    (hrep : s.repeated) (hp : p ∈ T s.num) : ¬ s.Omitted p := by
  intro homit
  obtain ⟨-, hsteps⟩ := h.decoder.steps h.run
  have hlt := hsteps.owed_lt h.decoder.nodup (T := T)
    (fun s' hs' hr => h.isPrefix .refl hs' hr) hs hrep (p := p)
    (by rw [h.result_eq]; exact hp) (by rw [h.repeated_empty s hs hrep]; exact not_mem_nil)
    homit
  have howed := h.length_le_owed
  rw [h.result_eq, owed_self] at hlt
  dsimp only at hlt
  omega

variable (h : ComesBack schema T view data step m₀ result)

include h

theorem eq_of_repeated {q : Piece} (hsplit : entries schema T = before ++ (s, p) :: after)
    (hs : s ∈ schema) (hrep : s.repeated) {m : M}
    (hm : view m = absorbAll before (view m₀)) {d : Nat × M} (hd : view d.2 = s.absorb q (view m))
    (hrest : ReflTransGen step d (data.length, result)) : q = p := by
  have hbefore : ∀ e ∈ before, e.1 ∈ schema := by
    intro _ he
    refine (mem_entries (T := T)).mp ?_ |>.1
    rw [hsplit]
    exact mem_append_left _ he
  have hlead := h.isPrefix hrest hs hrep
  rw [hd, s.absorb_self, if_pos hrep, hm,
    absorbAll_repeated h.decoder.nodup hs hrep hbefore, h.repeated_empty s hs hrep,
    nil_append,
    ← piecesOf_entries h.decoder.nodup hs fun p hp => h.not_omitted hs hrep hp, hsplit,
    piecesOf_append, piecesOf_cons_self, prefix_append_right_inj] at hlead
  exact (cons_prefix_cons.mp hlead).1

theorem next (hsplit : entries schema T = before ++ (s, p) :: after) {m : M}
    (hrest : ReflTransGen step ((bytesOf before).length, m) (data.length, result)) :
    s ∈ schema ∧ p ∈ T s.num ∧ data = bytesOf before ++ (p.encode s.num ++ bytesOf after) ∧
      ∃ d, step ((bytesOf before).length, m) d ∧ ReflTransGen step d (data.length, result) := by
  have hmem : (s, p) ∈ entries schema T := by
    rw [hsplit]
    exact mem_append_right _ mem_cons_self
  obtain ⟨hs, hp, -⟩ := mem_entries.mp hmem
  have hbytes : data = bytesOf before ++ (p.encode s.num ++ bytesOf after) := by
    rw [h.written, wire_eq_bytesOf, hsplit, bytesOf_append]
    rfl
  refine ⟨hs, hp, hbytes, ?_⟩
  cases hrest.cases_head with
  | inl heq =>
    have hlen := congrArg List.length hbytes
    rw [length_append, length_append, length_encode, Piece.size] at hlen
    have hidx := congrArg Prod.fst heq
    omega
  | inr hstep => exact hstep

theorem passes (hsplit : entries schema T = before ++ after) (hshort : ∀ e ∈ before, e.2.Short) :
    ∃ m, ReflTransGen step (0, m₀) ((bytesOf before).length, m) ∧
      ReflTransGen step ((bytesOf before).length, m) (data.length, result) ∧
      view m = absorbAll before (view m₀) := by
  induction before using List.reverseRecOn generalizing after with
  | nil => exact ⟨m₀, .refl, h.run, rfl⟩
  | append_singleton before e ih =>
    obtain ⟨s, p⟩ := e
    rw [append_assoc] at hsplit
    obtain ⟨m, hfirst, hrest, hm⟩ := ih hsplit fun e he => hshort e (mem_append_left _ he)
    obtain ⟨hs, hp, hbytes, d, hstep, hrest⟩ := h.next hsplit hrest
    obtain ⟨q, hq, -, hread⟩ := h.decoder.reads s hs p hp _ _ m d hbytes hstep
    obtain ⟨hidx, hsame⟩ := hread (hshort (s, p) (mem_append_right _ mem_cons_self))
    obtain rfl : q = p := by
      cases hr : s.repeated with
      | false => exact hsame hr
      | true => exact h.eq_of_repeated hsplit hs hr hm hq hrest
    obtain ⟨i, m'⟩ := d
    have hlength : (bytesOf (before ++ [(s, q)])).length = i := by
      dsimp only at hidx
      rw [bytesOf_append, length_append, bytesOf_cons, length_append,
        length_encode, hidx]
      rfl
    refine ⟨m', ?_, ?_, ?_⟩
    · rw [hlength]
      exact hfirst.tail hstep
    · rw [hlength]
      exact hrest
    · rw [absorbAll_append, ← hm]
      exact hq

/-- All the pieces are short. -/
theorem short : ∀ e ∈ entries schema T, e.2.Short := by
  refine forall_mem_of_first ?_
  rintro before ⟨s, p⟩ after hsplit hbefore
  by_contra hlong
  obtain ⟨m, hfirst, hrest, hm⟩ := h.passes hsplit hbefore
  obtain ⟨hs, hp, hbytes, d, hstep, hrest⟩ := h.next hsplit hrest
  obtain ⟨q, hq, hgroup, -⟩ := h.decoder.reads s hs p hp _ _ m d hbytes hstep
  have hne : q ≠ p := fun heq => hlong (heq ▸ hgroup)
  cases hr : s.repeated with
  | true => exact hne (h.eq_of_repeated hsplit hs hr hm hq hrest)
  | false =>
    -- nothing is settled here, and what is owed no longer fits
    obtain ⟨_, hp', -⟩ := h.singular s hs hr
    rw [hp', mem_singleton] at hp
    have hnone := owed_le_absorb_of_ne (V := view m) h.decoder.nodup hs hr
      (T := T) (p := q) (by
        rw [hp', ← hp]
        exact fun heq => hne (singleton_injective heq).symm)
    rw [← hq] at hnone
    have hlt := h.decoder.forward _ _ hstep
    obtain ⟨-, hread⟩ := h.decoder.steps hfirst
    obtain ⟨hle, hleft⟩ := h.decoder.steps hrest
    have hbound := hread.owed_le h.decoder.nodup (T := T) fun s' hs' hr' =>
      h.isPrefix (.head hstep hrest) hs' hr'
    have htotal := hleft.owed_le h.decoder.nodup (T := T) fun s' hs' hr' =>
      h.isPrefix .refl hs' hr'
    rw [h.result_eq, owed_self] at htotal
    have hall := h.length_le_owed
    dsimp only at hbound htotal hlt hle
    omega

theorem piece_short (hs : s ∈ schema) (hp : p ∈ T s.num) : p.Short := by
  by_cases homit : s.Omitted p
  · have hzero : p.number = 0 := homit.2
    unfold Piece.Short
    omega
  · exact h.short (s, p) (mem_entries.mpr ⟨hs, hp, homit⟩)

end ComesBack

end

/-! ## Decoders that go from header to header -/

/-- What a decoder finds at an index: a field number, a wire type, a number, and the index behind
them.  With a wire type other than zero as many bytes follow. -/
structure Head where
  num : Nat
  wireType : Nat
  number : Nat
  stop : Nat
deriving DecidableEq

namespace Head

/-- The index behind the field. -/
def finish (h : Head) : Nat := if h.wireType = 0 then h.stop else h.stop + h.number

/-- What the field holds. -/
def piece (h : Head) (data : List UInt8) : Piece :=
  if h.wireType = 0 then .varint h.number else .bytes ((data.drop h.stop).take h.number)

variable {h : Head} {data : List UInt8}

theorem piece_inside (hle : h.finish ≤ data.length) :
    (h.piece data).number = h.number ∧ h.stop + (h.piece data).content.length = h.finish := by
  unfold finish at hle ⊢
  unfold piece
  split
  · exact ⟨rfl, rfl⟩
  rename_i hwire
  rw [if_neg hwire] at hle
  have hlength : ((data.drop h.stop).take h.number).length = h.number := by
    rw [length_take, length_drop]
    omega
  exact ⟨hlength, congrArg (h.stop + ·) hlength⟩

theorem content_isInfix (h : Head) (data : List UInt8) : (h.piece data).content <:+: data := by
  unfold piece
  split
  · exact nil_infix
  · have hfront := take_prefix h.number (data.drop h.stop)
    exact hfront.isInfix.trans (drop_suffix h.stop data).isInfix

end Head

theorem Piece.drop_encode {data front back : List UInt8} {num : Nat}
    (hdata : data = front ++ (p.encode num ++ back)) :
    ∃ b rest, data.drop front.length = .ofNat (num * 8 + p.wireType) :: b :: rest ∧ b < 0x80 ∧
      (p.Short → b.toNat = p.number ∧
        (data.drop (front.length + 2)).take p.content.length = p.content) := by
  obtain ⟨b, rest, heq, hb, -, -, hshort⟩ := p.encode_eq num
  have hdrop : data.drop front.length =
      .ofNat (num * 8 + p.wireType) :: b :: (rest ++ p.content ++ back) := by
    rw [hdata, drop_left, heq]
    rfl
  refine ⟨b, _, hdrop, hb, ?_⟩
  intro hp
  obtain ⟨hnumber, rfl⟩ := hshort hp
  refine ⟨hnumber, ?_⟩
  rw [← drop_drop, hdrop]
  simp

open Relation

variable {M : Type} {schema : List Slot} {T : View} {view : M → View} {data : List UInt8}
  {head : Nat → Option Head} {take : Nat → Piece → M → M → Prop} {known : List Nat}

/-- One iteration: the field at the index ends inside the bytes, and the message takes its piece. -/
def HeadStep (head : Nat → Option Head) (take : Nat → Piece → M → M → Prop) (data : List UInt8)
    (c d : Nat × M) : Prop :=
  ∃ h, head c.1 = some h ∧ h.finish ≤ data.length ∧ d.1 = h.finish ∧
    take h.num (h.piece data) c.2 d.2

/-- A reader of headers: a header is no shorter than its number, and of a piece of a known wire
type it finds the tag and the first group. -/
structure Heads (schema : List Slot) (known : List Nat) (data : List UInt8)
    (head : Nat → Option Head) : Prop where
  nodup : (schema.map Slot.num).Nodup
  size_le : ∀ i h, head i = some h → i + 1 + varintSize h.number ≤ h.stop
  found : ∀ s ∈ schema, ∀ wireType ∈ known, ∀ (i : Nat) (b : UInt8) (rest : List UInt8),
    data.drop i = .ofNat (s.num * 8 + wireType) :: b :: rest → b < 0x80 →
      head i = some ⟨s.num, wireType, b.toNat, i + 2⟩

/-- What a message takes is at most the piece that was found; of the message `T` a short piece of a
singular field is taken as it is, and no piece is passed over. -/
def Takes (schema : List Slot) (T : View) (view : M → View) (data : List UInt8)
    (take : Nat → Piece → M → M → Prop) : Prop :=
  ∀ num p m m', p.content <:+: data → take num p m m' →
    (view m' = view m ∧ ∀ s ∈ schema, s.num = num → ∀ q ∈ T num, q.wireType ≠ p.wireType) ∨
    ∃ s ∈ schema, s.num = num ∧ ∃ q, view m' = s.absorb q (view m) ∧ q.number ≤ p.number ∧
      q.content.length ≤ p.content.length ∧
      (s.repeated = false → p ∈ T num → p.number < 128 → q = p)

theorem HeadStep.forward (H : Heads schema known data head) {c d : Nat × M}
    (hstep : HeadStep head take data c d) : c.1 < d.1 := by
  obtain ⟨h, hhead, hle, _, -⟩ := hstep
  have hsize := H.size_le _ h hhead
  obtain ⟨-, _⟩ := h.piece_inside hle
  omega

theorem Heads.short (H : Heads schema known data head) {s : Slot} (hs : s ∈ schema)
    (hknown : p.wireType ∈ known) (hp : p.Short) {front back : List UInt8}
    (hdata : data = front ++ (p.encode s.num ++ back)) :
    ∃ h, head front.length = some h ∧ h.num = s.num ∧ h.piece data = p ∧
      h.finish = front.length + p.size ∧ h.finish ≤ data.length := by
  obtain ⟨b, rest, hdrop, hb, hshort⟩ := drop_encode hdata
  obtain ⟨hnumber, hcontent⟩ := hshort hp
  have hhead := H.found s hs p.wireType hknown front.length b rest hdrop hb
  rw [hnumber] at hhead
  have hfinish : Head.finish ⟨s.num, p.wireType, p.number, front.length + 2⟩ =
      front.length + p.size := by
    rw [Piece.size, varintSize_of_lt hp]
    cases p with
    | varint => rfl
    | bytes => exact Nat.add_assoc _ _ _
  refine ⟨_, hhead, rfl, ?_, hfinish, ?_⟩
  · cases p with
    | varint => rfl
    | bytes => exact congrArg Piece.bytes hcontent
  · rw [hfinish, hdata, length_append, length_append, length_encode]
    omega

theorem Heads.forward (H : Heads schema known data head) (htake : Takes schema T view data take)
    (hknown : ∀ s ∈ schema, ∀ p ∈ T s.num, p.wireType ∈ known) :
    Forward schema T view data (HeadStep head take data) where
  nodup := H.nodup
  forward _ _ := HeadStep.forward H
  absorbs c d hstep := by
    obtain ⟨h, hhead, hle, hidx, htaken⟩ := hstep
    have hsize := H.size_le _ h hhead
    obtain ⟨hnumber, hfinish⟩ := h.piece_inside hle
    have hpos : 0 < d.1 - c.1 := by omega
    cases htake _ _ _ _ (Head.content_isInfix _ _) htaken with
    | inl hskip =>
      rw [hskip.1]
      exact .skip hpos
    | inr hread =>
      obtain ⟨s, hs, -, q, hview, hle', _, -⟩ := hread
      rw [hview]
      refine .read s q hs hpos ((Slot.size_le _ _).trans ?_)
      have hmono : varintSize q.number ≤ varintSize h.number := varintSize_mono (by omega)
      unfold Piece.size
      omega
  reads s hs p hp front back m d hdata hstep := by
    obtain ⟨b, rest, hdrop, hb, -⟩ := drop_encode hdata
    have hknown := hknown s hs p hp
    have hhead := H.found s hs p.wireType hknown front.length b rest hdrop hb
    obtain ⟨h, hhead', hle, hidx, htaken⟩ := hstep
    rw [hhead] at hhead'
    obtain rfl := Option.some.inj hhead'
    obtain ⟨hnumber, _⟩ := Head.piece_inside hle
    have hwire : (Head.piece ⟨s.num, p.wireType, b.toNat, front.length + 2⟩ data).wireType =
        p.wireType := by
      cases p with
      | varint => rfl
      | bytes => rfl
    have hlt : b.toNat < 128 := UInt8.lt_iff_toNat_lt.mp hb
    cases htake _ _ _ _ (Head.content_isInfix _ _) htaken with
    | inl hskip => exact absurd hwire.symm (hskip.2 s hs rfl p hp)
    | inr hread =>
      obtain ⟨s', hs', hnum, q, hview, _, -, hexact⟩ := hread
      obtain rfl : s' = s := inj_on_of_nodup_map H.nodup hs' hs hnum
      dsimp only at hnumber
      refine ⟨q, hview, by omega, ?_⟩
      intro hshort
      obtain ⟨_, hhead', -, hpiece, hend, -⟩ := H.short hs hknown hshort hdata
      rw [hhead] at hhead'
      obtain rfl := Option.some.inj hhead'
      refine ⟨hidx.trans hend, fun hr => ?_⟩
      rw [hpiece] at hexact
      exact hexact hr hp hshort

/-- Short pieces that are read one after another.  A piece that is left out changes nothing. -/
inductive Script (schema : List Slot) (known : List Nat) (take : Nat → Piece → M → M → Prop) :
    List (Slot × Piece) → M → M → Prop where
  | nil {m : M} : Script schema known take [] m m
  | cons {s : Slot} {p : Piece} {es : List (Slot × Piece)} {m m' m'' : M} (hs : s ∈ schema)
    (hknown : p.wireType ∈ known) (hshort : p.Short) (htake : take s.num p m m')
    (homitted : s.Omitted p → m' = m) (hrest : Script schema known take es m' m'') :
    Script schema known take ((s, p) :: es) m m''

namespace Script

variable {es es' : List (Slot × Piece)} {m m' m'' : M}

theorem append (h : Script schema known take es m m') (h' : Script schema known take es' m' m'') :
    Script schema known take (es ++ es') m m'' := by
  induction h with
  | nil => exact h'
  | cons hs hknown hshort htake homit _ ih => exact .cons hs hknown hshort htake homit (ih h')

theorem each {A : Type} {p : A → Slot × Piece} {f : List A → M} {as : List A}
    (h : ∀ a ∈ as, (p a).1 ∈ schema ∧ (p a).2.wireType ∈ known ∧ (p a).2.Short ∧
      ¬ (p a).1.Omitted (p a).2 ∧ ∀ before, take (p a).1.num (p a).2 (f before) (f (before ++ [a])))
    (before : List A) : Script schema known take (as.map p) (f before) (f (before ++ as)) := by
  induction as generalizing before with
  | nil =>
    rw [append_nil]
    exact .nil
  | cons a _ ih =>
    obtain ⟨hs, hknown, hshort, hwritten, htake⟩ := h a mem_cons_self
    have hrest := ih (fun b hb => h b (mem_cons_of_mem _ hb)) (before ++ [a])
    rw [append_assoc] at hrest
    exact .cons hs hknown hshort (htake before) (fun homit => absurd homit hwritten) hrest

theorem steps (H : Heads schema known data head) (h : Script schema known take es m m')
    (front back : List UInt8)
    (hsplit : data = front ++ ((es.flatMap fun e => e.1.encode e.2) ++ back)) :
    ReflTransGen (HeadStep head take data) (front.length, m)
      ((front ++ es.flatMap fun e => e.1.encode e.2).length, m') := by
  induction h generalizing front with
  | nil => rw [flatMap_nil, append_nil]
  | @cons s p es m m' m'' hs hknown hshort htake homit _ ih =>
    rw [flatMap_cons] at hsplit ⊢
    rw [← append_assoc]
    have hrest := ih (front ++ s.encode p) (by rw [hsplit]; simp)
    refine ReflTransGen.trans ?_ hrest
    rw [length_append]
    unfold Slot.encode at hsplit ⊢
    by_cases hempty : s.Omitted p
    · rw [if_pos hempty, homit hempty]
      exact .refl
    rw [if_neg hempty, append_assoc] at hsplit
    rw [if_neg hempty]
    obtain ⟨h, hhead, hnum, hpiece, hfinish, hle⟩ := H.short hs hknown hshort hsplit
    refine .single ⟨h, hhead, hle, ?_, ?_⟩
    · rw [hfinish, length_encode]
    · rw [hnum, hpiece]
      exact htake

theorem run (H : Heads schema known data head) (h : Script schema known take es m m')
    (hdata : data = es.flatMap fun e => e.1.encode e.2) :
    ReflTransGen (HeadStep head take data) (0, m) (data.length, m') := by
  have hsteps := h.steps H [] [] (by rw [append_nil]; exact hdata)
  rwa [nil_append, ← hdata] at hsteps

end Script

end HyperPax.Lib
