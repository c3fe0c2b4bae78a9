/-!
Visits to a place with room for a limited number at once.  A visitor who finds no room queues, and
a place that is left goes to the first of the queue.  Visitors act in turns.  Everyone has a turn
at the beginning, and gets another one at the moment of arrival, when a place is kept for them,
when their stay is over, and at the limit, where whoever is not done is sent away.  Turns come in
the order of their times, and turns of one time in the order in which they were asked for; so
`done` also tells in which order visitors are done that are done at the same time.
-/

namespace ShardVault.Schedule

/-- What a visitor is going to do. -/
inductive Plan
  /-- To be done at once, without a place. -/
  | immediate
  /-- Never to be done. -/
  | endless
  /-- To come after a delay, and to stay for a duration. -/
  | visit (delay duration : Nat)
deriving DecidableEq, Repr

/-- How far a visitor has come. -/
inductive Stage
  | planning (plan : Plan)
  | coming (arrival duration : Nat)
  | queuing
  /-- A place is kept for the visitor. -/
  | admitted (duration : Nat)
  | staying (finish : Nat)
  | idle
  | gone
deriving DecidableEq, Repr

/-- A turn of a visitor at a time. -/
structure Turn where
  time : Nat
  visitor : Nat
deriving DecidableEq, Repr

/-- The place and its visitors, who are numbered in the order of `stages`. -/
structure Hall where
  /-- How many more can stay. -/
  room : Nat
  /-- Who queues, and for how long they want to stay. -/
  queue : List (Nat × Nat)
  stages : List Stage
  /-- The turns to come, in order. -/
  turns : List Turn
  /-- Who is done, in order. -/
  done : List Nat
deriving DecidableEq, Repr

/-- Puts a turn after all that do not come later. -/
def insertTurn (turn : Turn) : List Turn → List Turn
  | [] => [turn]
  | first :: rest =>
    if first.time ≤ turn.time then first :: insertTurn turn rest else turn :: first :: rest

namespace Hall

/-- How far a visitor has come. -/
def stage (hall : Hall) (visitor : Nat) : Stage :=
  hall.stages.getD visitor .gone

/-- A visitor is now at a stage. -/
def become (hall : Hall) (visitor : Nat) (stage : Stage) : Hall :=
  { hall with stages := hall.stages.set visitor stage }

/-- A visitor gets a turn at a time. -/
def ask (hall : Hall) (time visitor : Nat) : Hall :=
  { hall with turns := insertTurn ⟨time, visitor⟩ hall.turns }

/-- A visitor is done. -/
def finish (hall : Hall) (visitor : Nat) : Hall :=
  { hall.become visitor .gone with done := hall.done ++ [visitor] }

/-- A place is left: it is kept for the first of the queue, if there is one. -/
def vacate (hall : Hall) (now : Nat) : Hall :=
  match hall.queue with
  | [] => { hall with room := hall.room + 1 }
  | (next, duration) :: rest =>
    ({ hall with queue := rest }.become next (.admitted duration)).ask now next

/-- A visitor takes a place that is free. -/
def enter (hall : Hall) (now visitor duration : Nat) : Hall :=
  if duration = 0 then (hall.finish visitor).vacate now
  else (hall.become visitor (.staying (now + duration))).ask (now + duration) visitor

/-- A visitor comes and takes a place, or queues if there is none. -/
def arrive (hall : Hall) (now visitor duration : Nat) : Hall :=
  match hall.room with
  | 0 => { hall.become visitor .queuing with queue := hall.queue ++ [(visitor, duration)] }
  | room + 1 => { hall with room }.enter now visitor duration

/-- A visitor starts to carry out a plan. -/
def start (hall : Hall) (now visitor : Nat) : Plan → Hall
  | .immediate => hall.finish visitor
  | .endless => hall.become visitor .idle
  | .visit 0 duration => hall.arrive now visitor duration
  | .visit delay duration =>
    (hall.become visitor (.coming (now + delay) duration)).ask (now + delay) visitor

/-- A visitor who is not done is sent away. -/
def dismiss (hall : Hall) (now visitor : Nat) : Hall :=
  match hall.stage visitor with
  | .admitted _ | .staying _ => (hall.become visitor .gone).vacate now
  | _ => { hall.become visitor .gone with queue := hall.queue.filter (·.1 ≠ visitor) }

/-- A visitor goes as far as possible. -/
def proceed (hall : Hall) (now visitor : Nat) : Hall :=
  match hall.stage visitor with
  | .planning plan => hall.start now visitor plan
  | .coming arrival duration => if now < arrival then hall else hall.arrive now visitor duration
  | .admitted duration => hall.enter now visitor duration
  | .staying finish => if now < finish then hall else (hall.finish visitor).vacate now
  | _ => hall

/-- A visitor has a turn.  The first turn is where the turn at the limit is asked for. -/
def act (hall : Hall) (limit : Nat) (turn : Turn) : Hall :=
  let next := hall.proceed turn.time turn.visitor
  if next.stage turn.visitor = .gone then next
  else if limit ≤ turn.time then next.dismiss turn.time turn.visitor
  else
    match hall.stage turn.visitor with
    | .planning _ => next.ask limit turn.visitor
    | _ => next

/-- The visitors have their turns, at most so many of them. -/
def run (limit : Nat) : Nat → Hall → Hall
  | 0, hall => hall
  | count + 1, hall =>
    match hall.turns with
    | [] => hall
    | turn :: rest => run limit count ({ hall with turns := rest }.act limit turn)

/-- Before the first turn.  There is room for one visitor at least. -/
def opening (room : Nat) (plans : List Plan) : Hall :=
  ⟨max room 1, [], plans.map .planning, (List.range plans.length).map (⟨0, ·⟩), []⟩

end Hall

/-- The visitors that are done before they are sent away, in the order in which they are done.
    Nobody has more than five turns. -/
def done (room limit : Nat) (plans : List Plan) : List Nat :=
  ((Hall.opening room plans).run limit (5 * plans.length)).done

/-! ## Order by keys -/

variable {α : Type}

/-- Puts a value among values in the order of their keys, before those with the same key. -/
def insertBy (key : α → Nat) (value : α) : List α → List α
  | [] => [value]
  | first :: rest =>
    if key value ≤ key first then value :: first :: rest
    else first :: insertBy key value rest

/-- The values in the order of their keys; those with the same key keep their order. -/
def orderBy (key : α → Nat) : List α → List α
  | [] => []
  | value :: rest => insertBy key value (orderBy key rest)

theorem insertBy_perm (key : α → Nat) (value : α) (values : List α) :
    (insertBy key value values).Perm (value :: values) := by
  induction values with
  | nil => exact .refl _
  | cons first rest ih =>
    simp only [insertBy]
    split
    · exact .refl _
    · exact (ih.cons first).trans (.swap value first rest)

/-- Ordering neither loses nor adds a value. -/
theorem orderBy_perm (key : α → Nat) (values : List α) : (orderBy key values).Perm values := by
  induction values with
  | nil => exact .refl _
  | cons value rest ih => exact (insertBy_perm key value _).trans (ih.cons value)

end ShardVault.Schedule
