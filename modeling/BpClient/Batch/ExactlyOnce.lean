import BpClient.Batch.Model
import BpClient.Lib.Leases

/-!
A batch that gets past its checks and returns has passed every item to
`pool_txrx` exactly once. The shared counter hands an item to one worker, which
holds it until its result is stored; when all workers have exited, the counter
has passed the last item, unless no worker could be started.
-/

namespace BpClient.Batch

open BpClient.Lib
open BpClient.Slot (Sdk)

def WorkerPc.holding : WorkerPc → Option Nat
  | .taken i | .calling i => some i
  | _ => none

section Invariant

variable {ε : Type*} (sdk : Sdk) (generic : ε) (args : Args ε)
variable (tr : List (State ε × Label ε)) (s : State ε)

/-- Item `i` has been passed to `pool_txrx` once, with its request, and has the
result of that call. -/
def Dispatched (i : Nat) : Prop :=
  ∃ it a, args.given[i]? = some it ∧ requests tr i = [it.req] ∧ answers tr i = [a] ∧
    s.items[i]? = some (it.store sdk a)

def Skipped (i : Nat) : Prop :=
  ∃ it, args.given[i]? = some it ∧ requests tr i = [] ∧ s.items[i]? = some (it.skip generic)

/-- A worker holds the items that are taken and have no answer yet. -/
def taking : Leases Nat Nat where
  inUse := fun i => i < s.next ∧ i < args.given.length ∧ answers tr i = []
  holds := fun w => (s.worker w).holding

structure Work : Prop where
  reqs : s.items.map Item.req = args.given.map Item.req
  leases : (taking args tr s).Inv
  untouched : ∀ i, s.next ≤ i ∨ args.given.length ≤ i → requests tr i = [] ∧ answers tr i = []
  taken : ∀ w i, s.worker w = .taken i → requests tr i = []
  calling : ∀ w i, s.worker w = .calling i →
    ∃ it, args.given[i]? = some it ∧ requests tr i = [it.req]
  answered : ∀ i, answers tr i ≠ [] → Dispatched sdk args tr s i
  exited : ∀ w, s.worker w = .exited → args.given.length < s.next
  idle : (∀ w, s.worker w = .unstarted) → s.next = 0

/-- The workers that have been started are the first `k`. -/
def State.Started (k : Nat) : Prop := ∀ w, s.worker w = .unstarted ↔ k ≤ w

def State.Stopped : Prop := ∀ w, s.worker w = .unstarted ∨ s.worker w = .exited

/-- What has become of the items when the batch returns. -/
def Settled : Prop :=
  (∀ i < args.given.length, Dispatched sdk args tr s i) ∨
    sdk = .c ∧ (∀ w, s.worker w = .unstarted) ∧
      ∀ i < args.given.length, Skipped generic args tr s i

def At : Pc ε → Prop
  | .enter => ∀ w, s.worker w = .unstarted
  | .spawn w n => w ≤ n ∧ 0 < n ∧ s.Started w
  | .join n => ∃ k, k ≤ n ∧ 0 < n ∧ s.Started k ∧ (sdk = .c ∨ k = n)
  | .finish => s.Stopped ∧ (sdk = .c ∧ (∀ w, s.worker w = .unstarted) ∨ args.given.length < s.next)
  | .returned r => s.Stopped ∧ Settled sdk generic args tr s ∧ r = report sdk s.items
  | .refused _ | .raised => True

structure Inv : Prop where
  work : Work sdk args tr s
  at_pc : At sdk generic args tr s s.pc

end Invariant

section Steps

variable {ε : Type*} {sdk : Sdk} {generic : ε} {args : Args ε}
variable {tr : List (State ε × Label ε)} {s s' : State ε} {l : Label ε} {w : Nat}

theorem requests_append (i : Nat) :
    requests (tr ++ [(s, l)]) i = requests tr i ++ (sent i (s, l)).toList := by
  rw [requests, List.filterMap_append, requests]
  cases hsent : sent i (s, l) <;> simp [hsent]

theorem answers_append (i : Nat) :
    answers (tr ++ [(s, l)]) i = answers tr i ++ (answer i (s, l)).toList := by
  rw [answers, List.filterMap_append, answers]
  cases hanswer : answer i (s, l) <;> simp [hanswer]

/-- A step that is in no call for any item. -/
theorem history_quiet (tr : List (State ε × Label ε))
    (hquiet : ∀ i, sent i (s, l) = none ∧ answer i (s, l) = none) :
    requests (tr ++ [(s, l)]) = requests tr ∧ answers (tr ++ [(s, l)]) = answers tr := by
  constructor
  · funext i
    rw [requests_append, (hquiet i).1]
    exact List.append_nil _
  · funext i
    rw [answers_append, (hquiet i).2]
    exact List.append_nil _

theorem Work.length_eq (h : Work sdk args tr s) : s.items.length = args.given.length := by
  have hlen := congrArg List.length h.reqs
  rwa [List.length_map, List.length_map] at hlen

/-- An item of the batch has the request that it was given with. -/
theorem Work.req_eq (h : Work sdk args tr s) {i : Nat} {it : Item ε}
    (hit : s.items[i]? = some it) : ∃ it', args.given[i]? = some it' ∧ it'.req = it.req := by
  have key : (s.items.map Item.req)[i]? = some it.req := by
    rw [List.getElem?_map, hit]
    rfl
  rw [h.reqs, List.getElem?_map] at key
  exact Option.map_eq_some_iff.mp key

/-- What a worker holds has been taken and is not answered. -/
theorem Work.held (h : Work sdk args tr s) {i : Nat} (hw : (s.worker w).holding = some i) :
    i < s.next ∧ i < args.given.length ∧ answers tr i = [] :=
  (h.leases.held i).mpr ⟨w, hw⟩

/-- The steps of the main thread: they start workers that have not been started,
and leave the items alone that have been taken. -/
theorem Work.main (h : Work sdk args tr s)
    (hquiet : ∀ i, sent i (s, l) = none ∧ answer i (s, l) = none)
    (hnext : s'.next = s.next)
    (hworker : ∀ w, s'.worker w = s.worker w ∨ s.worker w = .unstarted ∧ s'.worker w = .pull)
    (hreqs : s'.items.map Item.req = s.items.map Item.req)
    (hitems : ∀ i < s.next, s'.items[i]? = s.items[i]?) :
    Work sdk args (tr ++ [(s, l)]) s' := by
  obtain ⟨hrequests, hanswers⟩ := history_quiet tr hquiet
  have hsame : ∀ w pc, pc ≠ .pull → s'.worker w = pc → s.worker w = pc := by
    intro w pc hpc hw
    rcases hworker w with heq | ⟨-, hpull⟩
    · rw [← heq, hw]
    · exact absurd (hw.symm.trans hpull) hpc
  have hholds : ∀ w, (s'.worker w).holding = (s.worker w).holding := by
    intro w
    rcases hworker w with heq | ⟨hidle, hpull⟩
    · rw [heq]
    · rw [hidle, hpull]
      rfl
  have hleases : taking args (tr ++ [(s, l)]) s' = taking args tr s := by
    simp only [taking, hanswers, hnext, hholds]
  refine ⟨hreqs.trans h.reqs, hleases ▸ h.leases, ?_, ?_, ?_, ?_, ?_, ?_⟩
  · rw [hrequests, hanswers, hnext]
    exact h.untouched
  · intro w i hw
    rw [hrequests]
    exact h.taken w i (hsame w _ nofun hw)
  · intro w i hw
    rw [hrequests]
    exact h.calling w i (hsame w _ nofun hw)
  · intro i hi
    rw [hanswers] at hi
    have hlt : i < s.next := by
      by_contra hge
      exact hi (h.untouched i (.inl (Nat.le_of_not_lt hge))).2
    rw [Dispatched, hrequests, hanswers, hitems i hlt]
    exact h.answered i hi
  · intro w hw
    rw [hnext]
    exact h.exited w (hsame w _ nofun hw)
  · intro hidle
    rw [hnext]
    exact h.idle fun w => hsame w _ nofun (hidle w)

/-- Taking the next item, or finding that there is none. -/
theorem Work.pull (h : Work sdk args tr s) (hw : s.worker w = .pull) :
    Work sdk args (tr ++ [(s, .pull w)]) (s.pull w) := by
  obtain ⟨hrequests, hanswers⟩ :=
    history_quiet tr (s := s) (l := .pull w) fun _ => ⟨rfl, rfl⟩
  have hself : (s.pull w).worker w =
      if s.items.length ≤ s.next then .exited else .taken s.next := Function.update_self ..
  have hother : ∀ v, v ≠ w → (s.pull w).worker v = s.worker v :=
    fun v hv => Function.update_of_ne hv _ _
  have hnone : (s.worker w).holding = none := by
    rw [hw]
    rfl
  rw [h.length_eq] at hself
  have hcase : ∀ v pc, (s.pull w).worker v = pc →
      v = w ∧ (if args.given.length ≤ s.next then WorkerPc.exited else .taken s.next) = pc ∨
        s.worker v = pc := by
    intro v pc hv
    by_cases hvw : v = w
    · subst v
      exact .inl ⟨rfl, hself ▸ hv⟩
    · exact .inr (hother v hvw ▸ hv)
  refine ⟨h.reqs, ?_, ?_, ?_, ?_, ?_, ?_, ?_⟩
  · apply h.leases.move (p := w) (fun v hv => congrArg WorkerPc.holding (hother v hv))
    by_cases hlen : args.given.length ≤ s.next
    · rw [if_pos hlen] at hself
      apply Leases.Move.quiet
      · change ((s.pull w).worker w).holding = (s.worker w).holding
        rw [hself, hnone]
        rfl
      · intro i
        simp only [taking, hanswers, State.pull]
        constructor
        · rintro ⟨-, hi, hnil⟩
          exact ⟨hi.trans_le hlen, hi, hnil⟩
        · rintro ⟨hi, hrest⟩
          exact ⟨hi.trans (Nat.lt_succ_self _), hrest⟩
    · rw [if_neg hlen] at hself
      apply Leases.Move.take s.next hnone
      · exact fun hin => absurd hin.1 (Nat.lt_irrefl _)
      · change ((s.pull w).worker w).holding = some s.next
        rw [hself]
        rfl
      · refine ⟨Nat.lt_succ_self _, Nat.lt_of_not_le hlen, ?_⟩
        rw [hanswers]
        exact (h.untouched _ (.inl le_rfl)).2
      · intro j hj
        simp only [taking, hanswers, State.pull]
        have : j < s.next + 1 ↔ j < s.next := by omega
        rw [this]
  · intro i hi
    rw [hrequests, hanswers]
    apply h.untouched
    rcases hi with hi | hi
    · exact .inl (Nat.le_of_succ_le hi)
    · exact .inr hi
  · intro v i hv
    rw [hrequests]
    rcases hcase v _ hv with ⟨rfl, heq⟩ | hold
    · split at heq
      · cases heq
      · cases heq
        exact (h.untouched _ (.inl le_rfl)).1
    · exact h.taken v i hold
  · intro v i hv
    rw [hrequests]
    rcases hcase v _ hv with ⟨rfl, heq⟩ | hold
    · split at heq <;> cases heq
    · exact h.calling v i hold
  · intro i hi
    rw [hanswers] at hi
    rw [Dispatched, hrequests, hanswers]
    exact h.answered i hi
  · intro v hv
    change args.given.length < s.next + 1
    rcases hcase v _ hv with ⟨rfl, heq⟩ | hold
    · split at heq
      · next hlen => exact Nat.lt_succ_of_le hlen
      · cases heq
    · exact (h.exited v hold).trans (Nat.lt_succ_self _)
  · intro hidle
    have heq := hself.symm.trans (hidle w)
    split at heq <;> cases heq

/-- What is stored for one item leaves the results of the others. -/
theorem Dispatched.modify {i j : Nat} (f : Item ε → Item ε) (hij : i ≠ j)
    (hitems : s'.items = s.items.modify i f) (hrequests : requests (tr ++ [(s, l)]) j = requests tr j)
    (hanswers : answers (tr ++ [(s, l)]) j = answers tr j) (h : Dispatched sdk args tr s j) :
    Dispatched sdk args (tr ++ [(s, l)]) s' j := by
  rw [Dispatched, hrequests, hanswers, hitems, List.getElem?_modify_ne f s.items hij]
  exact h

/-- A step that changes one item, by a function that keeps the request. -/
theorem Work.reqs_modify (h : Work sdk args tr s) (i : Nat) (f : Item ε → Item ε)
    (hf : ∀ it, (f it).req = it.req) :
    (s.items.modify i f).map Item.req = args.given.map Item.req := by
  rw [← h.reqs]
  apply List.ext_getElem?
  intro j
  rw [List.getElem?_map, List.getElem?_map, List.getElem?_modify]
  cases s.items[j]? with
  | none => rfl
  | some it =>
      by_cases hij : i = j
      · simp [hij, hf]
      · simp [hij]

/-- Passing the request of the item that the worker has taken. -/
theorem Work.call {i : Nat} (h : Work sdk args tr s) (hw : s.worker w = .taken i)
    (hs : s' = { s.goto w (.calling i) with items := s.items.modify i (·.clear sdk) }) :
    Work sdk args (tr ++ [(s, .call w)]) s' := by
  obtain ⟨hlt, hlen, hnil⟩ := h.held (i := i) (w := w) (by rw [hw]; rfl)
  obtain ⟨it, hit⟩ : ∃ it, s.items[i]? = some it :=
    ⟨_, List.getElem?_eq_getElem (h.length_eq ▸ hlen)⟩
  obtain ⟨given, hgiven, hreq⟩ := h.req_eq hit
  have hanswers : answers (tr ++ [(s, .call w)]) = answers tr := by
    funext j
    rw [answers_append]
    exact List.append_nil _
  have hsent : ∀ j, sent j (s, .call w) = if i = j then some it.req else none := by
    intro j
    simp only [sent, hw, WorkerPc.taken.injEq]
    by_cases hij : i = j
    · subst j
      rw [if_pos rfl, if_pos rfl, hit]
      rfl
    · rw [if_neg hij, if_neg hij]
  have hrequests : ∀ j, i ≠ j → requests (tr ++ [(s, .call w)]) j = requests tr j := by
    intro j hij
    rw [requests_append, hsent, if_neg hij]
    exact List.append_nil _
  have hself : s'.worker w = .calling i := by
    rw [hs]
    exact Function.update_self ..
  have hother : ∀ v, v ≠ w → s'.worker v = s.worker v := by
    intro v hv
    rw [hs]
    exact Function.update_of_ne hv _ _
  have hholds : ∀ v, (s'.worker v).holding = (s.worker v).holding := by
    intro v
    by_cases hv : v = w
    · rw [hv, hself, hw]
      rfl
    · rw [hother v hv]
  have hnext : s'.next = s.next := by
    rw [hs]
    rfl
  have hsame : ∀ v pc, pc ≠ .calling i → s'.worker v = pc → s.worker v = pc := by
    intro v pc hpc hv
    by_cases hvw : v = w
    · exact absurd (hv.symm.trans (hvw ▸ hself)) hpc
    · exact hother v hvw ▸ hv
  have htaking : taking args (tr ++ [(s, .call w)]) s' = taking args tr s := by
    simp only [taking, hanswers, hnext, hholds]
  refine ⟨?_, htaking ▸ h.leases, ?_, ?_, ?_, ?_, ?_, ?_⟩
  · rw [hs]
    exact h.reqs_modify i _ fun it => it.clear_req sdk
  · intro j hj
    rw [hnext] at hj
    rw [hrequests j (by omega), hanswers]
    exact h.untouched j hj
  · intro v j hv
    have hold := hsame v (.taken j) nofun hv
    rw [hrequests j]
    · exact h.taken v j hold
    · rintro rfl
      -- nobody else holds the item
      obtain rfl := h.leases.unique v w i (congrArg WorkerPc.holding hold)
        (congrArg WorkerPc.holding hw)
      rw [hself] at hv
      cases hv
  · intro v j hv
    by_cases hij : i = j
    · subst j
      refine ⟨given, hgiven, ?_⟩
      rw [requests_append, h.taken w i hw, hsent, if_pos rfl, hreq]
      rfl
    · rw [hrequests j hij]
      exact h.calling v j (hsame v _ (fun heq => hij (WorkerPc.calling.inj heq).symm) hv)
  · intro j hj
    rw [hanswers] at hj
    have hij : i ≠ j := by
      rintro rfl
      exact hj hnil
    apply Dispatched.modify (·.clear sdk) hij (hs ▸ rfl) (hrequests j hij)
    · rw [hanswers]
    · exact h.answered j hj
  · intro v hv
    rw [hnext]
    exact h.exited v (hsame v _ nofun hv)
  · intro hidle
    rw [hidle w] at hself
    cases hself

/-- Storing the result of the call that the worker is in. -/
theorem Work.reply {i : Nat} {a : Answer ε} (h : Work sdk args tr s) (hw : s.worker w = .calling i)
    (hs : s' = { s.goto w .pull with items := s.items.modify i (·.store sdk a) }) :
    Work sdk args (tr ++ [(s, .reply w a)]) s' := by
  obtain ⟨hlt, hlen, hnil⟩ := h.held (i := i) (w := w) (by rw [hw]; rfl)
  obtain ⟨it, hit⟩ : ∃ it, s.items[i]? = some it :=
    ⟨_, List.getElem?_eq_getElem (h.length_eq ▸ hlen)⟩
  obtain ⟨given, hgiven, hreq⟩ := h.calling w i hw
  have hrequests : requests (tr ++ [(s, .reply w a)]) = requests tr := by
    funext j
    rw [requests_append]
    exact List.append_nil _
  have hself : s'.worker w = .pull := by
    rw [hs]
    exact Function.update_self ..
  have hother : ∀ v, v ≠ w → s'.worker v = s.worker v := by
    intro v hv
    rw [hs]
    exact Function.update_of_ne hv _ _
  have hnext : s'.next = s.next := by
    rw [hs]
    rfl
  have hsame : ∀ v pc, pc ≠ .pull → s'.worker v = pc → s.worker v = pc := by
    intro v pc hpc hv
    by_cases hvw : v = w
    · exact absurd (hv.symm.trans (hvw ▸ hself)) hpc
    · exact hother v hvw ▸ hv
  have hanswer : ∀ j, answer j (s, .reply w a) = if i = j then some a else none := by
    intro j
    simp only [answer, hw, WorkerPc.calling.injEq]
  have hnew : answers (tr ++ [(s, .reply w a)]) i = [a] := by
    rw [answers_append, hnil, hanswer, if_pos rfl]
    rfl
  have hanswers : ∀ j, i ≠ j → answers (tr ++ [(s, .reply w a)]) j = answers tr j := by
    intro j hij
    rw [answers_append, hanswer, if_neg hij]
    exact List.append_nil _
  refine ⟨?_, ?_, ?_, ?_, ?_, ?_, ?_, ?_⟩
  · rw [hs]
    exact h.reqs_modify i _ fun it => it.store_req sdk a
  · apply h.leases.move (p := w) (fun v hv => congrArg WorkerPc.holding (hother v hv))
    apply Leases.Move.give i
    · change (s.worker w).holding = some i
      rw [hw]
      rfl
    · change (s'.worker w).holding = none
      rw [hself]
      rfl
    · rintro ⟨-, -, hin⟩
      rw [hnew] at hin
      cases hin
    · intro j hj
      simp only [taking, hnext, hanswers j (Ne.symm hj)]
  · intro j hj
    rw [hnext] at hj
    rw [hrequests, hanswers j (by omega)]
    exact h.untouched j hj
  · intro v j hv
    rw [hrequests]
    exact h.taken v j (hsame v _ nofun hv)
  · intro v j hv
    rw [hrequests]
    exact h.calling v j (hsame v _ nofun hv)
  · intro j hj
    by_cases hij : i = j
    · subst j
      refine ⟨given, a, hgiven, ?_, hnew, ?_⟩
      · rw [hrequests]
        exact hreq
      · rw [hs]
        change (s.items.modify i _)[i]? = _
        obtain ⟨given', hgiven', hreq'⟩ := h.req_eq hit
        obtain rfl := Option.some.inj (hgiven.symm.trans hgiven')
        rw [List.getElem?_modify_eq, hit]
        exact congrArg some (Item.store_congr hreq'.symm sdk a)
    · rw [hanswers j hij] at hj
      apply Dispatched.modify (·.store sdk a) hij (hs ▸ rfl) _ (hanswers j hij) (h.answered j hj)
      rw [hrequests]
  · intro v hv
    rw [hnext]
    exact h.exited v (hsame v _ nofun hv)
  · intro hidle
    rw [hidle w] at hself
    cases hself

/-- While a worker runs, the main thread has not finished. -/
theorem At.worker {pc : Pc ε} (h : At sdk generic args tr s pc) (hstart : s.worker w ≠ .unstarted)
    (hexit : s.worker w ≠ .exited) (hself : s'.worker w ≠ .unstarted)
    (hother : ∀ v, v ≠ w → s'.worker v = s.worker v) :
    At sdk generic args (tr ++ [(s, l)]) s' pc := by
  have hidle : ∀ v, s'.worker v = .unstarted ↔ s.worker v = .unstarted := by
    intro v
    by_cases hv : v = w
    · subst v
      exact iff_of_false hself hstart
    · rw [hother v hv]
  have hstopped : ¬s.Stopped := fun hstop => (hstop w).elim hstart hexit
  cases pc with
  | enter => exact absurd (h w) hstart
  | spawn k n => exact ⟨h.1, h.2.1, fun v => (hidle v).trans (h.2.2 v)⟩
  | join n =>
      obtain ⟨k, hk, hpos, hstarted, hall⟩ := h
      exact ⟨k, hk, hpos, fun v => (hidle v).trans (hstarted v), hall⟩
  | finish => exact absurd h.1 hstopped
  | returned r => exact absurd h.1 hstopped
  | refused r => trivial
  | raised => trivial

theorem Inv.worker (h : Inv sdk generic args tr s) (hstart : s.worker w ≠ .unstarted)
    (hexit : s.worker w ≠ .exited) (hself : s'.worker w ≠ .unstarted)
    (hother : ∀ v, v ≠ w → s'.worker v = s.worker v) (hpc : s'.pc = s.pc)
    (hwork : Work sdk args (tr ++ [(s, l)]) s') : Inv sdk generic args (tr ++ [(s, l)]) s' :=
  ⟨hwork, hpc ▸ h.at_pc.worker hstart hexit hself hother⟩

/-- The main thread goes on, and leaves the workers and their items alone. -/
theorem Inv.goto (h : Inv sdk generic args tr s) (pc : Pc ε)
    (hquiet : ∀ i, sent i (s, l) = none ∧ answer i (s, l) = none)
    (hat : At sdk generic args (tr ++ [(s, l)]) { s with pc := pc } pc) :
    Inv sdk generic args (tr ++ [(s, l)]) { s with pc := pc } :=
  ⟨h.work.main hquiet rfl (fun _ => .inl rfl) rfl fun _ _ => rfl, hat⟩

theorem Args.start_req : (args.start sdk).map Item.req = args.given.map Item.req := by
  cases sdk <;> simp [Args.start]

/-- Neither the checks nor the allocation pass anything to `pool_txrx`. -/
theorem Inv.enter {pool : Option PoolSize} {alloc : Bool} (h : Inv sdk generic args tr s)
    (hpc : s.pc = .enter) :
    Inv sdk generic args (tr ++ [(s, .enter pool alloc)]) (s.enter sdk args pool alloc) := by
  have hat := h.at_pc
  rw [hpc] at hat
  have hidle : ∀ w, s.worker w = .unstarted := hat
  have hzero : s.next = 0 := h.work.idle hidle
  have hquiet : ∀ i, sent i (s, .enter pool alloc) = none ∧ answer i (s, .enter pool alloc) = none :=
    fun _ => ⟨rfl, rfl⟩
  unfold State.enter
  split
  · exact h.goto _ hquiet trivial
  · split
    · next hempty =>
        refine ⟨h.work.main hquiet rfl (fun _ => .inl rfl) ?_ ?_, fun w => .inl (hidle w), .inl ?_, rfl⟩
        · rw [h.work.reqs, hempty]
        · intro i hi
          rw [hzero] at hi
          exact absurd hi (Nat.not_lt_zero _)
        · intro i hi
          rw [hempty] at hi
          exact absurd hi (Nat.not_lt_zero _)
    · next hne =>
        split
        · exact h.goto _ hquiet trivial
        · next p =>
            split
            · exact h.goto _ hquiet trivial
            · refine ⟨h.work.main hquiet rfl (fun _ => .inl rfl) ?_ ?_, Nat.zero_le _, ?_, ?_⟩
              · rw [h.work.reqs]
                exact Args.start_req
              · intro i hi
                rw [hzero] at hi
                exact absurd hi (Nat.not_lt_zero _)
              · exact lt_min p.one_le (List.length_pos_iff.mpr hne)
              · exact fun w => iff_of_true (hidle w) (Nat.zero_le _)

/-- A worker that has been started has taken nothing yet. -/
theorem Inv.spawn {created : Bool} {k n : Nat} (h : Inv sdk generic args tr s)
    (hpc : s.pc = .spawn k n) (hs : s.spawn sdk created k n = some s') :
    Inv sdk generic args (tr ++ [(s, .spawn created)]) s' := by
  have hat := h.at_pc
  rw [hpc] at hat
  obtain ⟨hk, hpos, hstarted⟩ := hat
  have hquiet : ∀ i, sent i (s, .spawn created) = none ∧ answer i (s, .spawn created) = none :=
    fun _ => ⟨rfl, rfl⟩
  unfold State.spawn at hs
  split at hs
  · next hlt =>
      split at hs
      · cases hs
        have hself : (s.goto k .pull).worker k = .pull := Function.update_self ..
        have hother : ∀ v, v ≠ k → (s.goto k .pull).worker v = s.worker v :=
          fun v hv => Function.update_of_ne hv _ _
        refine ⟨h.work.main hquiet rfl ?_ rfl (fun _ _ => rfl), hlt, hpos, ?_⟩
        · intro v
          by_cases hv : v = k
          · subst v
            exact .inr ⟨(hstarted k).mpr le_rfl, hself⟩
          · exact .inl (hother v hv)
        · intro v
          change (s.goto k .pull).worker v = .unstarted ↔ k + 1 ≤ v
          by_cases hv : v = k
          · subst v
            rw [hself]
            exact iff_of_false nofun (Nat.not_succ_le_self _)
          · rw [hother v hv, hstarted v]
            omega
      · cases sdk with
        | c =>
            cases hs
            exact h.goto _ hquiet ⟨k, hk, hpos, hstarted, .inl rfl⟩
        | go => cases hs
        | python =>
            cases hs
            exact h.goto _ hquiet trivial
  · next hge =>
      cases hs
      exact h.goto _ hquiet ⟨k, hk, hpos, hstarted, .inr (by omega)⟩

/-- When the workers that have been started have exited, no worker runs. -/
theorem Inv.join {n : Nat} (h : Inv sdk generic args tr s) (hpc : s.pc = .join n)
    (hjoined : s.Joined n) :
    Inv sdk generic args (tr ++ [(s, .join)]) { s with pc := .finish } := by
  have hat := h.at_pc
  rw [hpc] at hat
  obtain ⟨k, hk, hpos, hstarted, hall⟩ := hat
  apply h.goto _ fun _ => ⟨rfl, rfl⟩
  constructor
  · intro w
    by_cases hw : w < n
    · exact hjoined w hw
    · exact .inl ((hstarted w).mpr (by omega))
  · by_cases hzero : k = 0
    · rcases hall with hc | hn
      · exact .inl ⟨hc, fun w => (hstarted w).mpr (hzero ▸ Nat.zero_le w)⟩
      · omega
    · -- the first worker has been started
      have hne : s.worker 0 ≠ .unstarted := fun heq => hzero (Nat.le_zero.mp ((hstarted 0).mp heq))
      exact .inr (h.work.exited 0 ((hjoined 0 hpos).resolve_left hne))

theorem markRest_req (next : Nat) (items : List (Item ε)) :
    (markRest sdk generic next items).map Item.req = items.map Item.req := by
  cases sdk with
  | c =>
      have hskip : Item.req ∘ (·.skip generic) = Item.req (ε := ε) := rfl
      rw [markRest, List.map_append, List.map_map, hskip, ← List.map_append, List.take_append_drop]
  | go => rfl
  | python => rfl

/-- Items that a worker has taken are not marked. -/
theorem markRest_taken {next i : Nat} (items : List (Item ε)) (hi : i < next) :
    (markRest sdk generic next items)[i]? = items[i]? := by
  cases sdk with
  | c =>
      rw [markRest]
      by_cases hlen : i < items.length
      · rw [List.getElem?_append_left (by rw [List.length_take]; omega), List.getElem?_take_of_lt hi]
      · rw [List.getElem?_eq_none, List.getElem?_eq_none (Nat.le_of_not_lt hlen)]
        rw [List.length_append, List.length_take, List.length_map, List.length_drop]
        omega
  | go => rfl
  | python => rfl

/-- The report is about the items as the workers have left them. -/
theorem Inv.finish (h : Inv sdk generic args tr s) (hpc : s.pc = .finish) :
    Inv sdk generic args (tr ++ [(s, .finish)]) (s.finish sdk generic) := by
  have hat := h.at_pc
  rw [hpc] at hat
  obtain ⟨hstopped, hrest⟩ := hat
  have hwork : Work sdk args (tr ++ [(s, .finish)]) (s.finish sdk generic) :=
    h.work.main (fun _ => ⟨rfl, rfl⟩) rfl (fun _ => .inl rfl) (markRest_req _ _)
      fun i hi => markRest_taken _ hi
  refine ⟨hwork, hstopped, ?_, rfl⟩
  rcases hrest with ⟨rfl, hidle⟩ | hnext
  · refine .inr ⟨rfl, hidle, fun i hi => ?_⟩
    have hzero : s.next = 0 := h.work.idle hidle
    obtain ⟨it, hit⟩ : ∃ it, s.items[i]? = some it :=
      ⟨_, List.getElem?_eq_getElem (h.work.length_eq ▸ hi)⟩
    obtain ⟨given, hgiven, hreq⟩ := h.work.req_eq hit
    refine ⟨given, hgiven, (hwork.untouched i (.inl ?_)).1, ?_⟩
    · change s.next ≤ i
      rw [hzero]
      exact Nat.zero_le i
    · change (markRest .c generic s.next s.items)[i]? = _
      rw [hzero, markRest, List.take_zero, List.drop_zero, List.nil_append, List.getElem?_map, hit]
      rw [Option.map_some, Item.skip, Item.skip, hreq]
  · refine .inl fun i hi => hwork.answered i fun hnil => ?_
    -- an item without an answer would be held by a worker that runs
    obtain ⟨w, hw⟩ := (hwork.leases.held i).mp ⟨hi.trans hnext, hi, hnil⟩
    change (s.worker w).holding = some i at hw
    rcases hstopped w with heq | heq <;> rw [heq] at hw <;> cases hw

/-- Every step of a batch keeps the invariant. -/
theorem Inv.step (h : Inv sdk generic args tr s) (hs : step sdk generic args s l = some s') :
    Inv sdk generic args (tr ++ [(s, l)]) s' := by
  cases l with
  | enter pool alloc =>
      simp only [Batch.step] at hs
      split at hs
      · next hpc =>
          cases hs
          exact h.enter hpc
      · cases hs
  | spawn created =>
      simp only [Batch.step] at hs
      split at hs
      · next hpc => exact h.spawn hpc hs
      · cases hs
  | join =>
      simp only [Batch.step] at hs
      split at hs
      · next hpc =>
          split at hs
          · next hjoined =>
              cases hs
              exact h.join hpc hjoined
          · cases hs
      · cases hs
  | finish =>
      simp only [Batch.step] at hs
      split at hs
      · next hpc =>
          cases hs
          exact h.finish hpc
      · cases hs
  | pull w =>
      simp only [Batch.step] at hs
      split at hs
      · next hw =>
          cases hs
          refine h.worker ?_ ?_ ?_ (fun v hv => Function.update_of_ne hv _ _) rfl (h.work.pull hw)
          · simp [hw]
          · simp [hw]
          · change Function.update s.worker w _ w ≠ _
            rw [Function.update_self]
            split <;> nofun
      · cases hs
  | call w =>
      simp only [Batch.step] at hs
      split at hs
      · next i hw =>
          cases hs
          refine h.worker ?_ ?_ ?_ (fun v hv => Function.update_of_ne hv _ _) rfl (h.work.call hw rfl)
          · simp [hw]
          · simp [hw]
          · change Function.update s.worker w _ w ≠ _
            rw [Function.update_self]
            nofun
      · cases hs
  | reply w a =>
      simp only [Batch.step] at hs
      split at hs
      · next i hw =>
          cases hs
          refine h.worker ?_ ?_ ?_ (fun v hv => Function.update_of_ne hv _ _) rfl (h.work.reply hw rfl)
          · simp [hw]
          · simp [hw]
          · change Function.update s.worker w _ w ≠ _
            rw [Function.update_self]
            nofun
      · cases hs

theorem Initial.inv (h : Initial args s) : Inv sdk generic args [] s := by
  refine ⟨⟨congrArg _ h.items, ?_, fun i _ => ⟨rfl, rfl⟩, ?_, ?_, ?_, ?_, fun _ => h.next⟩, ?_⟩
  · apply Leases.Inv.initial
    · rintro i ⟨hi, -⟩
      rw [h.next] at hi
      exact Nat.not_lt_zero _ hi
    · intro w
      change (s.worker w).holding = none
      rw [h.worker]
      rfl
  · intro w i hw
    cases (h.worker w).symm.trans hw
  · intro w i hw
    cases (h.worker w).symm.trans hw
  · intro i hi
    exact absurd rfl hi
  · intro w hw
    cases (h.worker w).symm.trans hw
  · rw [h.pc]
    exact h.worker

theorem inv_of_trace (h : (poolBatch sdk generic args).Trace tr s) :
    Inv sdk generic args tr s := by
  induction h with
  | init h => exact Initial.inv h
  | step _ hs ih => exact ih.step hs

end Steps

section Report

variable {ε : Type*} {sdk : Sdk} {items : List (Item ε)}

end Report

section Main

variable {ε : Type*} {sdk : Sdk} {generic : ε} {args : Args ε}
variable {tr : List (State ε × Label ε)} {s : State ε}

end Main

end BpClient.Batch
