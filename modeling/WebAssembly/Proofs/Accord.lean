import WebAssembly.Decode.Basic
import WebAssembly.Proofs.Numeral

/-!
# Sources in accord

Two sources may hold the same bytes at different places, one of them some bytes
further on than the other. No operation tells them apart then but by the position
that it reports. An `Accord` is a relation between sources of two kinds for which
this is so.

A decoder only acts through the operations of its source, so it takes sources in
accord through the same steps. What it yields is the same as far as it holds no
position, and a failure has the same contexts and a cause whose offset, if it has
one, is greater by the distance. `Decode.Parallel` relates two decoders in this
way and `Decode.Uniform` is the case of equal values; combinators keep both.
-/

namespace WebAssembly

/-! ## Shifted positions -/

/-- The same cause some bytes further on. Only an offset changes. -/
def Cause.shift (distance : Nat) : Cause → Cause
  | .malformedVarint offset => .malformedVarint (offset + distance)
  | .integerOverflow offset width => .integerOverflow (offset + distance) width
  | .unexpectedEnd offset => .unexpectedEnd (offset + distance)
  | .unknownOpcode code offset => .unknownOpcode code (offset + distance)
  | .unbalancedBlock offset => .unbalancedBlock (offset + distance)
  | .unexpectedElse offset => .unexpectedElse (offset + distance)
  | .trailingBytes offset count => .trailingBytes (offset + distance) count
  | .invalidUtf8 offset => .invalidUtf8 (offset + distance)
  | cause => cause

/-- The same failure with its cause some bytes further on. -/
def Failure.shift (distance : Nat) (failure : Failure) : Failure :=
  { failure with cause := failure.cause.shift distance }

@[simp] theorem Failure.shift_ofCause (distance : Nat) (cause : Cause) :
    (ofCause cause).shift distance = ofCause (cause.shift distance) := rfl

/-- Faults that are met further on have their offsets further on. -/
theorem Numeral.Fault.at_add (fault : Fault) (offset distance : Nat) :
    fault.at (offset + distance) = (fault.at offset).shift distance := by
  cases fault <;> rfl

/-- Nothing is shifted by no distance. -/
@[simp] theorem Failure.shift_zero (failure : Failure) : failure.shift 0 = failure := by
  obtain ⟨contexts, cause⟩ := failure
  cases cause <;> rfl

/-! ## Accords -/

/-- How the results of two decoders agree: the values are the same or the failures are,
up to the distance, and the sources afterwards are alike. -/
inductive Agree
    (distance : Nat)
    (alike : ρ → ς → Prop)
    (same : α → β → Prop) :
    EStateM.Result Failure ρ α → EStateM.Result Failure ς β → Prop
  | ok {value : α} {other : β} {far : ρ} {near : ς} :
      same value other → alike far near →
      Agree distance alike same (.ok value far) (.ok other near)
  | error (failure : Failure) {far : ρ} {near : ς} :
      alike far near →
      Agree distance alike same (.error (failure.shift distance) far) (.error failure near)

/-- Without a distance, a failure is the same failure. -/
theorem Agree.error_same
    {alike : ρ → ς → Prop}
    {same : α → β → Prop}
    {failure : Failure}
    {far : ρ}
    {near : ς}
    (afterwards : alike far near) :
    Agree 0 alike same (.error failure far) (.error failure near) := by
  have agree : Agree 0 alike same (.error (failure.shift 0) far) (.error failure near) :=
    .error failure afterwards
  rwa [Failure.shift_zero] at agree

/-- A result agrees with itself. -/
theorem Agree.refl (result : EStateM.Result Failure ρ α) : Agree 0 Eq Eq result result := by
  cases result with
  | ok value after => exact .ok rfl rfl
  | error failure after => exact .error_same rfl

/-- A relation between sources of two kinds, one of them further on by a distance,
that every operation keeps. -/
structure Accord (ρ ς : Type) [Source ρ] [Source ς] where
  /-- How much further on the first source is. -/
  distance : Nat
  /-- Both sources are about to read the same bytes. -/
  Alike : ρ → ς → Prop
  position {far : ρ} {near : ς} :
    Alike far near → Source.position far = Source.position near + distance
  remaining {far : ρ} {near : ς} :
    Alike far near → Source.remaining far = Source.remaining near
  isEnd {far : ρ} {near : ς} :
    Alike far near → Source.isEnd far = Source.isEnd near
  peek {far : ρ} {near : ς} :
    Alike far near → Source.peek far = Source.peek near
  byte {far : ρ} {near : ς} :
    Alike far near → Agree distance Alike Eq (Decode.byte far) (Decode.byte near)
  number {α : Type} {read : List UInt8 → Except Numeral.Fault (α × Nat)} {far : ρ} {near : ς} :
    Numeral.Faithful read → Alike far near →
      Agree distance Alike Eq (Decode.number read far) (Decode.number read near)
  bytes {far : ρ} {near : ς} (length : Nat) :
    Alike far near → Agree distance Alike Eq (Decode.bytes length far) (Decode.bytes length near)
  split {far : ρ} {near : ς} (length : Nat) :
    Alike far near →
      Agree distance Alike Alike (Decode.split length far) (Decode.split length near)

/-- Every source is in accord with itself. -/
def Accord.refl (ρ : Type) [Source ρ] : Accord ρ ρ where
  distance := 0
  Alike := Eq
  position := fun same => same ▸ rfl
  remaining := fun same => same ▸ rfl
  isEnd := fun same => same ▸ rfl
  peek := fun same => same ▸ rfl
  byte := fun same => same ▸ .refl _
  number := fun _ same => same ▸ .refl _
  bytes := fun _ same => same ▸ .refl _
  split := fun _ same => same ▸ .refl _

namespace Decode

variable {ρ ς : Type} [Source ρ] [Source ς] {accord : Accord ρ ς}

/-- Two decoders agree on sources in accord. -/
def Parallel
    (accord : Accord ρ ς)
    (same : α → β → Prop)
    (far : Decode ρ α)
    (near : Decode ς β) :
    Prop :=
  ∀ source other, accord.Alike source other →
    Agree accord.distance accord.Alike same (far source) (near other)

/-- Two decoders yield equal values on sources in accord, or fail alike. -/
def Uniform (accord : Accord ρ ς) (far : Decode ρ α) (near : Decode ς α) : Prop :=
  Parallel accord Eq far near

namespace Parallel

theorem pure {same : α → β → Prop} {value : α} {other : β} (equal : same value other) :
    Parallel accord same (Pure.pure value) (Pure.pure other) :=
  fun _ _ alike => .ok equal alike

/-- Both fail, and the cause is further on where the source is. -/
theorem fail {same : α → β → Prop} (cause : Cause) :
    Parallel accord same (Decode.fail (cause.shift accord.distance)) (Decode.fail cause) :=
  fun _ _ alike => .error (.ofCause cause) alike

/-- Values may be compared more coarsely. -/
theorem mono
    {same coarser : α → β → Prop}
    {far : Decode ρ α}
    {near : Decode ς β}
    (parallel : Parallel accord same far near)
    (weaken : ∀ value other, same value other → coarser value other) :
    Parallel accord coarser far near := by
  intro source other alike
  have agreed := parallel source other alike
  generalize far source = farResult, near other = nearResult at agreed ⊢
  cases agreed with
  | ok equal alike => exact .ok (weaken _ _ equal) alike
  | error failure alike => exact .error failure alike

/-- Parallel parts make parallel sequences. -/
theorem bind
    {same : α → β → Prop}
    {sameNext : γ → δ → Prop}
    {far : Decode ρ α}
    {near : Decode ς β}
    {farNext : α → Decode ρ γ}
    {nearNext : β → Decode ς δ}
    (first : Parallel accord same far near)
    (next : ∀ value other, same value other →
      Parallel accord sameNext (farNext value) (nearNext other)) :
    Parallel accord sameNext (far >>= farNext) (near >>= nearNext) := by
  intro source other alike
  have agreed := first source other alike
  cases farOutcome : far source <;> cases nearOutcome : near other <;>
    rw [farOutcome, nearOutcome] at agreed <;> cases agreed
  case ok.ok.ok equal alike =>
    rw [bind_of_ok farOutcome, bind_of_ok nearOutcome]
    exact next _ _ equal _ _ alike
  case error.error.error alike =>
    rw [bind_of_error farOutcome, bind_of_error nearOutcome]
    exact .error _ alike

/-- A value that holds no position is handed on as it is. -/
theorem bind_same
    {sameNext : β → γ → Prop}
    {far : Decode ρ α}
    {near : Decode ς α}
    {farNext : α → Decode ρ β}
    {nearNext : α → Decode ς γ}
    (first : Uniform accord far near)
    (next : ∀ value, Parallel accord sameNext (farNext value) (nearNext value)) :
    Parallel accord sameNext (far >>= farNext) (near >>= nearNext) :=
  .bind first fun value _ equal => equal ▸ next value

/-- Positions differ by the distance. -/
theorem position :
    Parallel accord (fun here there => here = there + accord.distance) position position :=
  fun _ _ alike => .ok (accord.position alike) alike

/-- Windows that are split off sources in accord are in accord. -/
theorem split (length : Nat) :
    Parallel accord accord.Alike (split length) (split length) :=
  fun _ _ alike => accord.split length alike

/-- Decoders that are uniform on windows in accord are so within them. -/
theorem withinRest
    {window : ρ}
    {counterpart : ς}
    {far : Decode ρ α}
    {near : Decode ς α}
    (alike : accord.Alike window counterpart)
    (uniform : Uniform accord far near) :
    Parallel accord (fun here there => here.1 = there.1 ∧ accord.Alike here.2 there.2)
      (withinRest window far) (withinRest counterpart near) := by
  intro source other outside
  have agreed := uniform window counterpart alike
  unfold Decode.withinRest
  generalize far window = farResult, near counterpart = nearResult at agreed
  cases agreed with
  | ok equal rest => exact .ok ⟨equal, rest⟩ outside
  | error failure _ => exact .error failure outside

theorem remaining : Uniform accord remaining remaining :=
  fun _ _ alike => .ok (accord.remaining alike) alike

theorem isEnd : Uniform accord isEnd isEnd :=
  fun _ _ alike => .ok (accord.isEnd alike) alike

section Loops

variable (sameState : σ → τ → Prop) {same : α → β → Prop}
  {farEnd : σ → Decode ρ α} {nearEnd : τ → Decode ς β}
  {farStep : σ → Decode ρ (σ ⊕ α)} {nearStep : τ → Decode ς (τ ⊕ β)}

/-- Loops that go through related states agree if their steps do. -/
theorem stepFor
    (parallelEnd : ∀ state other, sameState state other →
      Parallel accord same (farEnd state) (nearEnd other))
    (parallelStep : ∀ state other, sameState state other →
      Parallel accord (Sum.LiftRel sameState same) (farStep state) (nearStep other))
    (rounds : Nat)
    {state : σ}
    {other : τ}
    (related : sameState state other) :
    Parallel accord same (stepFor farEnd farStep rounds state)
      (stepFor nearEnd nearStep rounds other) := by
  -- The number of rounds is the number of unread bytes, which is the same on both sides.
  induction rounds generalizing state other with
  | zero => exact parallelEnd state other related
  | succ rounds inductionHypothesis =>
      refine .bind_same isEnd fun ended => ?_
      cases ended with
      | true => exact parallelEnd state other related
      | false =>
          refine .bind (parallelStep state other related) fun result counterpart lifted => ?_
          cases lifted with
          | inl next => exact inductionHypothesis next
          | inr equal => exact .pure equal

/-- Loops that run to the end of the window agree if their steps do. -/
theorem stepUntilEnd
    (parallelEnd : ∀ state other, sameState state other →
      Parallel accord same (farEnd state) (nearEnd other))
    (parallelStep : ∀ state other, sameState state other →
      Parallel accord (Sum.LiftRel sameState same) (farStep state) (nearStep other))
    {state : σ}
    {other : τ}
    (related : sameState state other) :
    Parallel accord same (stepUntilEnd farEnd farStep state)
      (stepUntilEnd nearEnd nearStep other) :=
  .bind_same remaining fun rounds => .stepFor sameState parallelEnd parallelStep rounds related

end Loops

end Parallel

namespace Uniform

/-- Any decoder does on a source what it does on that source. -/
theorem refl (decoder : Decode ρ α) : Uniform (.refl ρ) decoder decoder :=
  fun source _ same => same ▸ Agree.refl (decoder source)

theorem pure (value : α) : Uniform accord (Pure.pure value) (Pure.pure value) :=
  Parallel.pure rfl

/-- Uniform parts make uniform sequences. -/
theorem bind
    {far : Decode ρ α}
    {near : Decode ς α}
    {farNext : α → Decode ρ β}
    {nearNext : α → Decode ς β}
    (first : Uniform accord far near)
    (rest : ∀ value, Uniform accord (farNext value) (nearNext value)) :
    Uniform accord (far >>= farNext) (near >>= nearNext) :=
  Parallel.bind_same first rest

theorem map
    {far : Decode ρ α}
    {near : Decode ς α}
    (function : α → β)
    (uniform : Uniform accord far near) :
    Uniform accord (function <$> far) (function <$> near) := by
  rw [← bind_pure_comp, ← bind_pure_comp]
  exact .bind uniform fun value => .pure _

/-- A decoder may ask for its position as long as its other parts follow. -/
theorem position_bind
    {farNext : Nat → Decode ρ α}
    {nearNext : Nat → Decode ς α}
    (follows : ∀ start, Uniform accord (farNext (start + accord.distance)) (nearNext start)) :
    Uniform accord (position >>= farNext) (position >>= nearNext) :=
  Parallel.bind .position fun _ start equal => equal ▸ follows start

/-- A cause that names no position may arise anywhere. -/
theorem fail
    (cause : Cause)
    (unplaced : ∀ distance, cause.shift distance = cause) :
    Uniform accord (Decode.fail cause : Decode ρ α) (Decode.fail cause) := by
  have moved : Uniform accord (Decode.fail (cause.shift accord.distance) : Decode ρ α)
      (Decode.fail cause) := Parallel.fail cause
  rwa [unplaced] at moved

theorem require
    (condition : Bool)
    (cause : Cause)
    (unplaced : ∀ distance, cause.shift distance = cause) :
    Uniform accord (Decode.require condition cause) (Decode.require condition cause) := by
  cases condition with
  | true => exact .pure ()
  | false => exact .fail cause unplaced

theorem requireSome
    (value : Option α)
    (cause : Cause)
    (unplaced : ∀ distance, cause.shift distance = cause) :
    Uniform accord (Decode.requireSome value cause) (Decode.requireSome value cause) := by
  cases value with
  | some value => exact .pure value
  | none => exact .fail cause unplaced

/-! ## Primitives -/

theorem remaining : Uniform accord remaining remaining := Parallel.remaining

theorem isEnd : Uniform accord isEnd isEnd := Parallel.isEnd

theorem peek : Uniform accord peek peek :=
  fun _ _ alike => .ok (accord.peek alike) alike

theorem byte : Uniform accord byte byte :=
  fun _ _ alike => accord.byte alike

/-- A number is read alike if it depends on no byte but its own. -/
theorem number
    {read : List UInt8 → Except Numeral.Fault (α × Nat)}
    (faithful : Numeral.Faithful read) :
    Uniform accord (number read) (number read) :=
  fun _ _ alike => accord.number faithful alike

theorem u32 : Uniform accord u32 u32 := .number Numeral.faithful_u32

theorem i32 : Uniform accord i32 i32 := .number Numeral.faithful_i32

theorem i64 : Uniform accord i64 i64 := .number Numeral.faithful_i64

theorem f32 : Uniform accord f32 f32 := .number Numeral.faithful_f32

theorem f64 : Uniform accord f64 f64 := .number Numeral.faithful_f64

theorem bytes (length : Nat) : Uniform accord (bytes length) (bytes length) :=
  fun _ _ alike => accord.bytes length alike

/-- A string that is no UTF-8 is refused at its beginning, wherever that is. -/
theorem string (length : Nat) : Uniform accord (string length) (string length) := by
  refine .position_bind fun start => .bind (bytes length) fun list => ?_
  cases String.fromUTF8? list.toByteArray with
  | some text => exact .pure text
  | none => exact Parallel.fail (.invalidUtf8 start)

/-- What is left over is counted from where the reading stopped. -/
theorem finish : Uniform accord finish finish := by
  refine .bind isEnd fun ended => ?_
  cases ended with
  | true => exact .pure ()
  | false =>
      refine .position_bind fun stop => .bind remaining fun count => ?_
      exact Parallel.fail (.trailingBytes stop count)

/-! ## Combinators -/

theorem indexBelow
    (bound : UInt32)
    (cause : UInt32 → Cause)
    (unplaced : ∀ index distance, (cause index).shift distance = cause index) :
    Uniform accord (indexBelow bound cause) (indexBelow bound cause) :=
  .bind u32 fun index => .bind (.require _ _ (unplaced index)) fun _ => .pure index

theorem reservedByte : Uniform accord reservedByte reservedByte :=
  .bind byte fun _ => .require _ _ fun _ => rfl

/-- A context is put around failures that agree. -/
theorem inContext
    {far : Decode ρ α}
    {near : Decode ς α}
    (context : Context)
    (uniform : Uniform accord far near) :
    Uniform accord (inContext context far) (inContext context near) := by
  intro source other alike
  have agreed := uniform source other alike
  unfold Decode.inContext
  generalize far source = farResult, near other = nearResult at agreed
  cases agreed with
  | ok equal alike => exact .ok equal alike
  | error failure alike => exact .error (failure.inContext context) alike

/-- Decoders that are uniform on windows in accord are so on these windows. -/
theorem within
    {window : ρ}
    {counterpart : ς}
    {far : Decode ρ α}
    {near : Decode ς α}
    (alike : accord.Alike window counterpart)
    (uniform : Uniform accord far near) :
    Uniform accord (within window far) (within counterpart near) :=
  Parallel.bind (.withinRest alike uniform) fun _ _ equal => .pure equal.1

/-- A size is a difference of positions. -/
theorem sized
    {far : Decode ρ (Nat → α)}
    {near : Decode ς (Nat → α)}
    (uniform : Uniform accord far near) :
    Uniform accord (sized far) (sized near) := by
  refine .position_bind fun start => .bind uniform fun build => .position_bind fun stop => ?_
  rw [Nat.add_sub_add_right]
  exact .pure _

section Repetition

variable {far : Nat → Decode ρ α} {near : Nat → Decode ς α}

/-- Rounds of a uniform decoder are uniform, whatever has been collected. -/
theorem timesFrom
    (uniform : ∀ round, Uniform accord (far round) (near round))
    (count round : Nat)
    (collected : List α) :
    Uniform accord (timesFrom far count round collected)
      (timesFrom near count round collected) := by
  induction count generalizing round collected with
  | zero => exact .pure _
  | succ count inductionHypothesis =>
      exact .bind (uniform round) fun value =>
        inductionHypothesis (round + 1) (value :: collected)

theorem times
    (count : UInt32)
    (uniform : ∀ round, Uniform accord (far round) (near round)) :
    Uniform accord (times count far) (times count near) :=
  .timesFrom uniform count.toNat 0 []

theorem counted
    {far : Decode ρ α}
    {near : Decode ς α}
    (uniform : Uniform accord far near) :
    Uniform accord (counted far) (counted near) :=
  .bind u32 fun count => .times count fun _ => uniform

theorem name : Uniform accord name name :=
  .bind u32 fun length => .string length.toNat

/-- A uniform decoder is so item by item. -/
theorem mapM
    {far : β → Decode ρ α}
    {near : β → Decode ς α}
    (uniform : ∀ item, Uniform accord (far item) (near item))
    (items : List β) :
    Uniform accord (items.mapM far) (items.mapM near) := by
  induction items with
  | nil => exact .pure []
  | cons item items inductionHypothesis =>
      rw [List.mapM_cons, List.mapM_cons]
      exact .bind (uniform item) fun first => .bind inductionHypothesis fun rest => .pure _

end Repetition

section Loops

variable {farEnd : σ → Decode ρ α} {nearEnd : σ → Decode ς α}
  {farStep : σ → Decode ρ (σ ⊕ α)} {nearStep : σ → Decode ς (σ ⊕ α)}

theorem stepUntilEnd
    (uniformEnd : ∀ state, Uniform accord (farEnd state) (nearEnd state))
    (uniformStep : ∀ state, Uniform accord (farStep state) (nearStep state))
    (state : σ) :
    Uniform accord (stepUntilEnd farEnd farStep state) (stepUntilEnd nearEnd nearStep state) := by
  have lifted (result other : σ ⊕ α) (equal : result = other) : Sum.LiftRel Eq Eq result other := by
    subst equal
    cases result with
    | inl next => exact .inl rfl
    | inr result => exact .inr rfl
  refine Parallel.stepUntilEnd Eq (fun state _ equal => ?_) (fun state _ equal => ?_) rfl
  · subst equal
    exact uniformEnd state
  · subst equal
    exact Parallel.mono (uniformStep state) lifted

end Loops

end Uniform

end Decode

end WebAssembly
