/-
# `Backends.Settle` — what a settle marker promises, on both backends

`await_settle` records that a worker will settle a job later, and
`claim_settle` is the one test-and-clear that whoever settles it has to win.
The two backends are held against the same two statements: a marker belongs
to the claim it was written under (`marker_stays_with_its_claim`), and a
promise is settled at most once (`promise_settled_once`).

The first fails on both, through the one transition that keeps the SQL row
(`reclaim_execution`) and through every transition on Redis; the second fails
on Redis for deadlines that Lua prints in exponent form.
-/
import FlexiQ.Redis.Settle
import FlexiQ.Sql.Settle

namespace FlexiQ.Backends

open FlexiQ.Lib FlexiQ.Step

/-- A job is dispatched, claimed under epoch 1, and its worker promises to
settle it. -/
def promisedSql : List (Int × Sql.Act) :=
  [(0, .enqueue (Sql.plainJob []) "job"), (10, .dequeue Sql.dequeueOne),
    (11, .claimExecution "job" "w" 1), (12, .awaitSettle "job" "w" 0 (some 1) 500 none)]

def promisedRedis (deadline : Int) : List (Turn Redis.Call Int) :=
  [.arrive (.enqueue Redis.errand "job" 0), .step 0, .step 0, .step 0, .step 0, .step 0, .step 0,
    .arrive (.dequeueBatch "q" 10 none 1), .step 1,
    .arrive (.claimExecution "job" "w" 11 1), .step 2, .step 2,
    .arrive (.awaitSettle "job" "w" 0 (some 1) deadline none 12), .step 3]

/-- **A promise is settled once**, however many holders, sweeps and givers-up
compete for it.  On the SQL backends in every history; on Redis in every
interleaving of calls whose deadlines Lua prints digit for digit. -/
theorem promise_settled_once (serde : Serde) :
    (∀ (t : Sql.Tenure),
      Reaches (Sql.Tenure.next serde) (fun _ _ => True) .start t → ∀ j,
      (t.watch j).settles ≤ 1 ∧
      (∀ claimant scope, (Sql.claimSettle t.store j claimant scope).1 = true →
        claimant.Rightful (Sql.leaseOf t.store j)) ∧
      ∀ label t', t.next serde label = some t' → ∀ d d',
        (Sql.leaseOf t.store j).marker = some d → (Sql.leaseOf t'.store j).marker = some d' →
        d ≤ d') ∧
    ∀ (p : Pool Redis.Req Redis.Resp Redis.Reply (Redis.Server × (String → Watch))),
      Reaches (Pool.next ((Redis.machine serde).watched (Redis.tenancy Redis.Req.answered)))
        Redis.heard.watched.Met Redis.untouched p → ∀ j,
      (p.world.2 j).settles ≤ 1 ∧
      (∀ claimant scope, (Redis.claimSettle p.world.1.store j claimant scope).1 = true →
        claimant.Rightful (Redis.leaseOf p.world.1.store j)) ∧
      ∀ turn p', Redis.heard.watched.Met p turn →
        p.next ((Redis.machine serde).watched (Redis.tenancy Redis.Req.answered)) turn = some p' →
        ∀ d d', (Redis.leaseOf p.world.1.store j).marker = some d →
          (Redis.leaseOf p'.world.1.store j).marker = some d' → d ≤ d' := by
  refine ⟨fun t h j => ⟨?_, ?_, ?_⟩, fun p h j => ⟨?_, ?_, ?_⟩⟩
  · exact (Sql.single_of_reaches h j).1
  · intro claimant scope hgranted
    obtain ⟨claim, hclaim, hentitled⟩ := Sql.granted_entitled hgranted
    exact Sql.entitled_rightful hclaim hentitled
  · exact fun label t' hnext d d' hd hd' => Sql.deadline_next hnext hd hd'
  · exact ((Redis.sound_of_reaches h).world.single j).1
  · exact fun claimant scope hgranted =>
      Redis.granted_rightful (Redis.sound_of_reaches h).world.plain hgranted
  · exact fun turn p' hmet hnext d d' hd hd' =>
      Redis.deadline_next (Redis.sound_of_reaches h) hmet hnext hd hd'

/-- On Redis an extension to a deadline of fifteen digits is answered with
nothing, and its marker is there: two settles are granted after one promise
that was answered. -/
theorem unheard_promise : ∃ p,
    Reaches (Pool.next ((Redis.machine Redis.noSerde).watched (Redis.tenancy Redis.Req.answered)))
      Terms.any.Met Redis.untouched p ∧ p.result 5 = some (.deadline none) ∧
      p.result 4 = some (.flag true) ∧ p.result 6 = some (.flag true) ∧
      (p.world.2 "job").settles = 2 :=
  exists_reached (promisedRedis 500 ++ [.arrive (.claimSettle "job" .abandoned none), .step 4,
    .arrive (.awaitSettle "job" "w" 0 (some 1) 100000000000000 none 13), .step 5,
    .arrive (.claimSettle "job" .abandoned none), .step 6])

theorem first_claimant_settles :
    (∃ t, Reaches (Sql.Tenure.next Sql.noJson) (fun _ _ => True) .start t ∧
      (t.watch "job").settles = 1 ∧
      (Sql.claimSettle t.store "job" (.expired 600) none).1 = false ∧ (t.watch "job").settles ≤ 1) ∧
    ∃ p, Reaches
        (Pool.next ((Redis.machine Redis.noSerde).watched (Redis.tenancy Redis.Req.answered)))
        Redis.heard.watched.Met Redis.untouched p ∧ p.result 4 = some (.flag true) ∧
      p.result 5 = some (.flag false) ∧ (p.world.2 "job").settles ≤ 1 := by
  refine ⟨?_, ?_⟩
  · refine exists_reached_imp (P := fun t => (t.watch "job").settles = 1 ∧
        (Sql.claimSettle t.store "job" (.expired 600) none).1 = false)
      (promisedSql ++ [(15, .claimSettle "job" (.lease 1) none)]) ?_
    rintro t hrun ⟨hone, hrefused⟩
    exact ⟨hone, hrefused, ((promise_settled_once _).1 t hrun "job").1⟩
  · refine exists_reached_imp
      (P := fun p => p.result 4 = some (.flag true) ∧ p.result 5 = some (.flag false))
      (promisedRedis 500 ++ [.arrive (.claimSettle "job" (.lease 1) none),
        .arrive (.claimSettle "job" (.expired 600) none), .step 4, .step 5]) ?_
    rintro p hrun ⟨hfirst, hsecond⟩
    exact ⟨hfirst, hsecond, ((promise_settled_once _).2 p hrun "job").1⟩

end FlexiQ.Backends
