import Mathlib.Data.List.Nodup
import SyncBack.Infrastructure.SseBroker

/-!
# What a client hears

`feeds_exact_and_independent`: what a client has read, followed by what its queue holds, is exactly
the events that were published while it was subscribed, addressed to its user or to nobody, about a
document that it asked for, and published while its queue had room, in the order of publication; and
two runs that differ in events for other users and in what becomes of other clients give the client
the same.

The proofs look at the part of a state that belongs to one client, `View`; `view_step` says what one
operation does to it.
-/

namespace SyncBack

variable {δ : Type}

/-- What happens to a broker and to the queues of its clients. -/
inductive BrokerOp (δ : Type) where
  | add (subId : Uuid) (filter : SubscriberFilter)
  | remove (subId : Uuid)
  | publish (event : SSEEvent δ)
  /-- The client takes the next event out of its queue, if there is one. -/
  | read (subId : Uuid)

/-- The broker, and what each client has read so far. -/
structure BrokerRun (δ : Type) where
  subscribers : Subscribers δ
  received : Uuid → List (SSEEvent δ)

namespace BrokerRun

def init : BrokerRun δ := ⟨.init, fun _ => []⟩

def step (r : BrokerRun δ) : BrokerOp δ → BrokerRun δ
  | .add subId filter => { r with subscribers := r.subscribers.add subId filter }
  | .remove subId => { r with subscribers := r.subscribers.remove subId }
  | .publish event => { r with subscribers := r.subscribers.fanOut event }
  | .read subId =>
      match r.subscribers.getNowait subId with
      | (none, _) => r
      | (some event, subscribers) =>
          { subscribers := subscribers
            received := Function.update r.received subId (r.received subId ++ [event]) }

/-- The run of a list of operations. -/
def run (ops : List (BrokerOp δ)) : BrokerRun δ := ops.foldl step init

/-- What the client has read, followed by what its queue holds. -/
def feed (r : BrokerRun δ) (subId : Uuid) : List (SSEEvent δ) :=
  r.received subId ++ r.subscribers.queue subId

end BrokerRun

/-- The identifier of a new subscription. -/
def BrokerOp.added : BrokerOp δ → Option Uuid
  | .add subId _ => some subId
  | _ => none

/-- A sequence of operations; `uuid4` never draws an identifier twice. -/
structure BrokerHistory (δ : Type) where
  ops : List (BrokerOp δ)
  drawnOnce : (ops.filterMap BrokerOp.added).Nodup

/-! ## What a client should hear -/

/-- The client has subscribed and not been removed since. -/
def Subscribed (subId : Uuid) (filter : SubscriberFilter) (before : List (BrokerOp δ)) : Prop :=
  ∃ earlier later, before = earlier ++ .add subId filter :: later ∧ .remove subId ∉ later

/-- The event is addressed to the user of the client, or to nobody in particular. -/
def SSEEvent.AddressedTo (event : SSEEvent δ) (userId : Uuid) : Prop :=
  event.userId = none ∨ event.userId = some userId

/-- The event is about no document or about one that the client asked for; a client that named none
asked for all. -/
def SSEEvent.PassesDocuments (event : SSEEvent δ) (documentIds : Finset Uuid) : Prop :=
  documentIds = ∅ ∨ event.documentId = none ∨ ∃ id ∈ documentIds, event.documentId = some id

open Classical in
/-- What the client is to hear of an operation after the operations `before`: an event that is
published while it is subscribed and its queue has room, addressed to it, and passing its filter. -/
noncomputable def dueNow (subId : Uuid) (filter : SubscriberFilter) (before : List (BrokerOp δ)) :
    BrokerOp δ → List (SSEEvent δ)
  | .publish event =>
      if Subscribed subId filter before ∧ event.AddressedTo filter.userId ∧
          event.PassesDocuments filter.documentIds ∧
          ((BrokerRun.run before).subscribers.queue subId).length < subscriberQueueSize then
        [event]
      else []
  | _ => []

/-- All that the client is to hear of the operations that follow `before`. -/
noncomputable def due (subId : Uuid) (filter : SubscriberFilter) :
    List (BrokerOp δ) → List (BrokerOp δ) → List (SSEEvent δ)
  | _, [] => []
  | before, op :: ops => dueNow subId filter before op ++ due subId filter (before ++ [op]) ops

/-- The operation concerns the client of `userId` with this subscription: not an event for another
user, nor anything that happens to another subscription. -/
def BrokerOp.concerns (subId userId : Uuid) : BrokerOp δ → Bool
  | .add subId' _ | .remove subId' | .read subId' => subId' = subId
  | .publish event => event.userId.all fun userId' => userId' = userId

/-- A filter passes what is addressed to its user and its documents. -/
theorem SubscriberFilter.skips_eq_false_iff {filter : SubscriberFilter} {event : SSEEvent δ} :
    filter.skips event = false ↔
      event.AddressedTo filter.userId ∧ event.PassesDocuments filter.documentIds := by
  unfold SubscriberFilter.skips SSEEvent.AddressedTo SSEEvent.PassesDocuments
  rw [Bool.or_eq_false_iff]
  refine and_congr ?_ ?_
  · cases event.userId <;> simp
  · by_cases hempty : filter.documentIds = ∅
    · simp [hempty]
    · cases event.documentId <;> simp [hempty]

/-! ## One client alone -/

/-- What a broker and a client share: the filter while the client is subscribed, its queue, and what
it has read. -/
@[ext] structure Feed (δ : Type) where
  filter : Option SubscriberFilter
  queue : List (SSEEvent δ)
  received : List (SSEEvent δ)

namespace Feed

def init : Feed δ := ⟨none, [], []⟩

/-- An event that was published. -/
def offer (f : Feed δ) (event : SSEEvent δ) : Feed δ :=
  match f.filter with
  | none => f
  | some filter =>
      if filter.skips event then f
      else { f with queue := (putNowait subscriberQueueSize f.queue event).getD f.queue }

/-- The next event is read. -/
def take (f : Feed δ) : Feed δ :=
  match f.queue with
  | [] => f
  | event :: rest => { f with queue := rest, received := f.received ++ [event] }

/-- What an operation means to the client. -/
def step (subId : Uuid) (f : Feed δ) : BrokerOp δ → Feed δ
  | .add subId' filter => if subId' = subId then { f with filter := some filter, queue := [] } else f
  | .remove subId' => if subId' = subId then { f with filter := none } else f
  | .publish event => f.offer event
  | .read subId' => if subId' = subId then f.take else f

def run (subId : Uuid) (ops : List (BrokerOp δ)) : Feed δ := ops.foldl (step subId) init

/-- One operation more. -/
theorem run_append_singleton (subId : Uuid) (ops : List (BrokerOp δ)) (op : BrokerOp δ) :
    run subId (ops ++ [op]) = (run subId ops).step subId op := by
  simp [run]

end Feed

/-! ## The broker keeps one feed for each client -/

section

variable {subId : Uuid} {filters : List (Uuid × SubscriberFilter)}

/-- Looking up another key after an entry was taken out. -/
theorem lookup_filter_ne (subId' : Uuid) (filters : List (Uuid × SubscriberFilter)) :
    (filters.filter fun entry => entry.1 ≠ subId').lookup subId =
      if subId' = subId then none else filters.lookup subId := by
  induction filters with
  | nil => simp
  | cons entry filters ih =>
      by_cases hentry : entry.1 = subId'
      · rw [List.filter_cons_of_neg (by simp [hentry]), ih]
        split
        · rfl
        · rename_i hne
          have hother : (subId == entry.1) = false :=
            beq_eq_false_iff_ne.mpr fun heq => hne (hentry.symm.trans heq.symm)
          rw [List.lookup_cons, hother]
      · rw [List.filter_cons_of_pos (by simp [hentry]), List.lookup_cons, List.lookup_cons, ih]
        by_cases hsame : subId = entry.1
        · have hne : subId' ≠ subId := fun heq => hentry (hsame.symm.trans heq.symm)
          subst hsame
          simp only [beq_self_eq_true, if_neg hne]
        · have hbeq : (subId == entry.1) = false := by simpa using hsame
          simp only [hbeq]

/-- A subscriber is found if it was just added, or was there. -/
theorem lookup_add (subId' : Uuid) (filter : SubscriberFilter)
    (filters : List (Uuid × SubscriberFilter)) :
    ((filters.filter fun entry => entry.1 ≠ subId') ++ [(subId', filter)]).lookup subId =
      if subId' = subId then some filter else filters.lookup subId := by
  rw [List.lookup_append, lookup_filter_ne]
  by_cases h : subId' = subId
  · subst h
    simp
  · have hbeq : (subId == subId') = false := beq_eq_false_iff_ne.mpr (Ne.symm h)
    simp [h, List.lookup_cons, hbeq]

/-- The loop of `fan_out` leaves the queues of all others alone. -/
theorem offer_of_ne {event : SSEEvent δ} {queue : Uuid → List (SSEEvent δ)}
    {entry : Uuid × SubscriberFilter} (h : subId ≠ entry.1) :
    Subscribers.offer event queue entry subId = queue subId := by
  unfold Subscribers.offer
  split
  · rfl
  cases putNowait subscriberQueueSize (queue entry.1) event with
  | none => rfl
  | some items => exact Function.update_of_ne h _ _

/-- An event is put into the queue if the filter passes it and there is room. -/
theorem offer_self (event : SSEEvent δ) (queue : Uuid → List (SSEEvent δ))
    (filter : SubscriberFilter) :
    Subscribers.offer event queue (subId, filter) subId =
      if filter.skips event then queue subId
      else (putNowait subscriberQueueSize (queue subId) event).getD (queue subId) := by
  unfold Subscribers.offer
  dsimp only
  split
  · rfl
  cases putNowait subscriberQueueSize (queue subId) event with
  | none => rfl
  | some items => exact Function.update_self _ _ _

/-- **What `fan_out` does to one queue**: it depends on the filter of its own client only. -/
theorem foldl_offer (event : SSEEvent δ) :
    ∀ {filters : List (Uuid × SubscriberFilter)} (queue : Uuid → List (SSEEvent δ)),
      (filters.map Prod.fst).Nodup →
      filters.foldl (Subscribers.offer event) queue subId =
        match filters.lookup subId with
        | none => queue subId
        | some filter =>
            if filter.skips event then queue subId
            else (putNowait subscriberQueueSize (queue subId) event).getD (queue subId)
  | [], _, _ => rfl
  | entry :: filters, queue, hnodup => by
      obtain ⟨hentry, hrest⟩ := List.nodup_cons.mp hnodup
      rw [List.foldl_cons, foldl_offer event _ hrest]
      by_cases hsame : subId = entry.1
      · -- its own entry: the others come after it
        have hnone : filters.lookup subId = none := by
          rw [List.lookup_eq_none_iff]
          intro other hmem
          rw [bne_iff_ne]
          intro heq
          exact hentry (by rw [← hsame, heq]; exact List.mem_map_of_mem hmem)
        obtain ⟨key, filter⟩ := entry
        obtain rfl : subId = key := hsame
        rw [hnone, List.lookup_cons_self]
        exact offer_self event queue filter
      · have hbeq : (subId == entry.1) = false := by simpa using hsame
        rw [List.lookup_cons, hbeq, offer_of_ne hsame]

end

namespace BrokerRun

/-- The part of a run that belongs to one client. -/
def view (r : BrokerRun δ) (subId : Uuid) : Feed δ :=
  ⟨r.subscribers.filters.lookup subId, r.subscribers.queue subId, r.received subId⟩

/-- The keys of the dictionary. -/
def KeysDistinct (r : BrokerRun δ) : Prop := (r.subscribers.filters.map Prod.fst).Nodup

/-- No identifier is added twice by one operation. -/
theorem keysDistinct_step {r : BrokerRun δ} (h : r.KeysDistinct) (op : BrokerOp δ) :
    (r.step op).KeysDistinct := by
  have hfiltered : ∀ subId, ((r.subscribers.filters.filter fun entry => entry.1 ≠ subId).map
      Prod.fst).Nodup := fun subId => h.sublist (List.filter_sublist.map _)
  cases op with
  | add subId filter =>
      unfold KeysDistinct step Subscribers.add
      rw [List.map_append, List.nodup_append]
      refine ⟨hfiltered subId, List.nodup_singleton _, ?_⟩
      intro key hkey other hother
      obtain ⟨entry, hmem, rfl⟩ := List.mem_map.mp hkey
      obtain rfl := List.mem_singleton.mp hother
      simpa using (List.mem_filter.mp hmem).2
  | remove subId => exact hfiltered subId
  | publish event => exact h
  | read subId =>
      dsimp only [step, Subscribers.getNowait]
      cases r.subscribers.queue subId <;> exact h

/-- **One step, seen by one client.** -/
theorem view_step {r : BrokerRun δ} (h : r.KeysDistinct) (subId : Uuid) (op : BrokerOp δ) :
    (r.step op).view subId = (r.view subId).step subId op := by
  cases op with
  | add subId' filter =>
      unfold view step Subscribers.add Feed.step
      dsimp only
      rw [lookup_add]
      by_cases hsame : subId' = subId
      · rw [if_pos hsame, if_pos hsame, hsame, Function.update_self]
      · rw [if_neg hsame, if_neg hsame, Function.update_of_ne (Ne.symm hsame)]
  | remove subId' =>
      unfold view step Subscribers.remove Feed.step
      dsimp only
      rw [lookup_filter_ne]
      split <;> rfl
  | publish event =>
      unfold view step Subscribers.fanOut Feed.step Feed.offer
      dsimp only
      rw [foldl_offer event _ h]
      cases r.subscribers.filters.lookup subId with
      | none => rfl
      | some filter =>
          dsimp only
          split <;> rfl
  | read subId' =>
      dsimp only [Feed.step]
      cases hqueue : r.subscribers.queue subId' with
      | nil =>
          have hstep : r.step (.read subId') = r := by
            simp only [step, Subscribers.getNowait, hqueue]
          rw [hstep]
          by_cases hsame : subId' = subId
          · subst hsame
            simp [Feed.take, view, hqueue]
          · rw [if_neg hsame]
      | cons event rest =>
          have hstep : r.step (.read subId') =
              { subscribers :=
                  { r.subscribers with queue := Function.update r.subscribers.queue subId' rest }
                received := Function.update r.received subId' (r.received subId' ++ [event]) } := by
            simp only [step, Subscribers.getNowait, hqueue]
          rw [hstep]
          by_cases hsame : subId' = subId
          · subst hsame
            simp [Feed.take, view, hqueue]
          · simp [view, hsame, Function.update_of_ne (Ne.symm hsame)]

/-- **The broker refines its clients' feeds.** -/
theorem view_run (subId : Uuid) (ops : List (BrokerOp δ)) :
    (run ops).view subId = Feed.run subId ops := by
  have hrun : ∀ (ops : List (BrokerOp δ)) (r : BrokerRun δ), r.KeysDistinct →
      (ops.foldl step r).view subId = ops.foldl (Feed.step subId) (r.view subId) := by
    intro ops
    induction ops with
    | nil => exact fun _ _ => rfl
    | cons op ops ih =>
        intro r h
        rw [List.foldl_cons, List.foldl_cons, ih _ (keysDistinct_step h op), view_step h]
  exact hrun ops init List.nodup_nil

end BrokerRun

/-! ## What is due is heard -/

section

variable {subId : Uuid} {filter : SubscriberFilter}

/-- A subscription is made once. -/
theorem add_unique : ∀ {ops : List (BrokerOp δ)} {filter' : SubscriberFilter},
    (ops.filterMap BrokerOp.added).Nodup → .add subId filter ∈ ops → .add subId filter' ∈ ops →
      filter' = filter
  | op :: ops, filter', hnodup, h, h' => by
      have hadded : ∀ g : SubscriberFilter, (.add subId g : BrokerOp δ) ∈ ops →
          subId ∈ ops.filterMap BrokerOp.added :=
        fun g hg => List.mem_filterMap.mpr ⟨_, hg, rfl⟩
      rcases List.mem_cons.mp h with rfl | hmem
      · rcases List.mem_cons.mp h' with heq | hmem'
        · exact (BrokerOp.add.inj heq).2
        · rw [List.filterMap_cons_some (by rfl)] at hnodup
          exact absurd (hadded _ hmem') (List.nodup_cons.mp hnodup).1
      · rcases List.mem_cons.mp h' with rfl | hmem'
        · rw [List.filterMap_cons_some (by rfl)] at hnodup
          exact absurd (hadded _ hmem) (List.nodup_cons.mp hnodup).1
        · exact add_unique (hnodup.sublist ((List.sublist_cons_self op ops).filterMap _)) hmem
            hmem'

/-- Who is subscribed after one more operation. -/
theorem subscribed_append_singleton {before : List (BrokerOp δ)} {op : BrokerOp δ} :
    Subscribed subId filter (before ++ [op]) ↔
      op = .add subId filter ∨ (Subscribed subId filter before ∧ op ≠ .remove subId) := by
  constructor
  · rintro ⟨earlier, later, heq, hlater⟩
    rcases List.eq_nil_or_concat later with rfl | ⟨later, last, rfl⟩
    · have hlast := (List.append_inj' heq rfl).2
      exact .inl (List.cons.inj hlast).1
    · have hsplit : before ++ [op] = (earlier ++ .add subId filter :: later) ++ [last] := by
        rw [heq]
        simp
      obtain ⟨rfl, hlast⟩ := List.append_inj' hsplit rfl
      obtain rfl := (List.cons.inj hlast).1
      refine .inr ⟨⟨earlier, later, rfl, fun hmem => hlater (by simp [hmem])⟩, ?_⟩
      rintro rfl
      exact hlater (by simp)
  · rintro (rfl | ⟨⟨earlier, later, rfl, hlater⟩, hne⟩)
    · exact ⟨before, [], rfl, List.not_mem_nil⟩
    · refine ⟨earlier, later ++ [op], by simp, ?_⟩
      rw [List.mem_append, List.mem_singleton, not_or]
      exact ⟨hlater, Ne.symm hne⟩

/-- A subscriber was added. -/
theorem mem_of_subscribed {before : List (BrokerOp δ)} (h : Subscribed subId filter before) :
    .add subId filter ∈ before := by
  obtain ⟨earlier, later, rfl, -⟩ := h
  simp

/-- A feed has a filter exactly while the client is subscribed. -/
theorem feed_filter_iff {before : List (BrokerOp δ)}
    (hnodup : (before.filterMap BrokerOp.added).Nodup) :
    (Feed.run subId before).filter = some filter ↔ Subscribed subId filter before := by
  induction before using List.reverseRecOn with
  | nil =>
      constructor
      · intro h
        cases h
      · rintro ⟨earlier, later, heq, -⟩
        simp at heq
  | append_singleton before op ih =>
      have ih := ih (hnodup.sublist ((List.sublist_append_left before [op]).filterMap _))
      rw [Feed.run_append_singleton, subscribed_append_singleton, ← ih]
      cases op with
      | add subId' filter' =>
          dsimp only [Feed.step]
          by_cases hsame : subId' = subId
          · subst hsame
            rw [if_pos rfl]
            constructor
            · intro heq
              obtain rfl := Option.some.inj heq
              exact .inl rfl
            · rintro (heq | ⟨hold, -⟩)
              · rw [(BrokerOp.add.inj heq).2]
              · -- a second subscription of the same name
                have hmem := mem_of_subscribed (ih.mp hold)
                rw [add_unique hnodup (List.mem_append_right _ (List.mem_singleton_self _))
                  (List.mem_append_left _ hmem)]
          · rw [if_neg hsame]
            simp [hsame]
      | remove subId' =>
          dsimp only [Feed.step]
          by_cases hsame : subId' = subId
          · simp [hsame]
          · simp [hsame]
      | publish event =>
          have hfilter : ((Feed.run subId before).offer event).filter =
              (Feed.run subId before).filter := by
            unfold Feed.offer
            split
            · rfl
            split <;> rfl
          simp [Feed.step, hfilter]
      | read subId' =>
          have hfilter : (Feed.run subId before).take.filter =
              (Feed.run subId before).filter := by
            unfold Feed.take
            split <;> rfl
          dsimp only [Feed.step]
          by_cases hsame : subId' = subId
          · simp [hsame, hfilter]
          · simp [hsame]

/-- Before the subscription there is nothing. -/
theorem feed_before_add {before : List (BrokerOp δ)}
    (h : subId ∉ before.filterMap BrokerOp.added) : Feed.run subId before = Feed.init := by
  induction before using List.reverseRecOn with
  | nil => rfl
  | append_singleton before op ih =>
      rw [List.filterMap_append, List.mem_append, not_or] at h
      rw [Feed.run_append_singleton, ih h.1]
      cases op with
      | add subId' filter =>
          have hne : subId' ≠ subId := by
            rintro rfl
            exact h.2 (by simp [BrokerOp.added])
          simp [Feed.step, hne]
      | remove subId' => simp [Feed.step, Feed.init]
      | publish event => rfl
      | read subId' => simp [Feed.step, Feed.init, Feed.take]

/-- What a feed has heard in all. -/
def Feed.all (f : Feed δ) : List (SSEEvent δ) := f.received ++ f.queue

/-- Taking an event changes nothing about all of them. -/
theorem Feed.all_take (f : Feed δ) : f.take.all = f.all := by
  unfold Feed.take Feed.all
  split
  · rfl
  · rename_i event rest hqueue
    simp [hqueue]

/-- An event that is offered with room is the next of them. -/
theorem Feed.all_offer_of_room {f : Feed δ} {event : SSEEvent δ} (hfilter : f.filter = some filter)
    (hskips : filter.skips event = false) (hroom : f.queue.length < subscriberQueueSize) :
    (f.offer event).all = f.all ++ [event] := by
  unfold Feed.offer Feed.all
  simp [hfilter, hskips, putNowait, Nat.not_le_of_lt hroom]

/-- Otherwise it changes nothing. -/
theorem Feed.offer_of_not {f : Feed δ} {event : SSEEvent δ}
    (h : ∀ filter, f.filter = some filter → filter.skips event = false →
      ¬ f.queue.length < subscriberQueueSize) : f.offer event = f := by
  unfold Feed.offer
  cases hfilter : f.filter with
  | none => rfl
  | some filter =>
      dsimp only
      cases hskips : filter.skips event with
      | true => rfl
      | false =>
          have hfull := Nat.le_of_not_lt (h filter hfilter hskips)
          rw [if_neg Bool.false_ne_true, putNowait, if_pos hfull]
          ext <;> simp [hfilter]

/-- **What is due is heard**, from any point of a history on. -/
theorem feed_all_append : ∀ (ops before : List (BrokerOp δ)),
    ((before ++ ops).filterMap BrokerOp.added).Nodup → .add subId filter ∈ before ++ ops →
      (Feed.run subId (before ++ ops)).all =
        (Feed.run subId before).all ++ due subId filter before ops
  | [], before, _, _ => by simp [due]
  | op :: ops, before, hnodup, hadd => by
      have hsplit : before ++ op :: ops = (before ++ [op]) ++ ops := by simp
      have hbefore : (before.filterMap BrokerOp.added).Nodup :=
        hnodup.sublist ((List.sublist_append_left _ _).filterMap _)
      rw [hsplit] at hnodup hadd ⊢
      rw [feed_all_append ops (before ++ [op]) hnodup hadd, due, ← List.append_assoc]
      congr 1
      rw [Feed.run_append_singleton]
      have hfeed : ∀ g, (Feed.run subId before).filter = some g → g = filter := by
        intro g hg
        have hmem := mem_of_subscribed ((feed_filter_iff hbefore).mp hg)
        exact add_unique hnodup hadd
          (List.mem_append_left _ (List.mem_append_left _ hmem))
      cases op with
      | add subId' filter' =>
          dsimp only [Feed.step]
          by_cases hsame : subId' = subId
          · subst hsame
            have hfresh : subId' ∉ before.filterMap BrokerOp.added := by
              rw [List.filterMap_append, List.filterMap_append] at hnodup
              have hdisjoint := (List.nodup_append.mp (List.nodup_append.mp hnodup).1).2.2
              intro hmem
              exact hdisjoint _ hmem subId' (by simp [BrokerOp.added]) rfl
            rw [if_pos rfl, feed_before_add hfresh]
            simp [Feed.all, Feed.init, dueNow]
          · simp [hsame, dueNow]
      | remove subId' =>
          dsimp only [Feed.step]
          by_cases hsame : subId' = subId
          · simp [hsame, Feed.all, dueNow]
          · simp [hsame, dueNow]
      | read subId' =>
          dsimp only [Feed.step]
          by_cases hsame : subId' = subId
          · simp [hsame, Feed.all_take, dueNow]
          · simp [hsame, dueNow]
      | publish event =>
          have hqueue : (BrokerRun.run before).subscribers.queue subId =
              (Feed.run subId before).queue :=
            congrArg Feed.queue (BrokerRun.view_run subId before)
          dsimp only [Feed.step, dueNow]
          split
          · rename_i hdue
            obtain ⟨hsubscribed, haddressed, hpasses, hroom⟩ := hdue
            exact Feed.all_offer_of_room ((feed_filter_iff hbefore).mpr hsubscribed)
              (SubscriberFilter.skips_eq_false_iff.mpr ⟨haddressed, hpasses⟩) (hqueue ▸ hroom)
          · rename_i hdue
            rw [List.append_nil, Feed.offer_of_not]
            intro g hg hskips hroom
            obtain rfl := hfeed g hg
            obtain ⟨haddressed, hpasses⟩ := SubscriberFilter.skips_eq_false_iff.mp hskips
            exact hdue ⟨(feed_filter_iff hbefore).mp hg, haddressed, hpasses, hqueue ▸ hroom⟩

end

/-! ## What does not concern a client changes nothing for it -/

section

variable {subId userId : Uuid}

/-- Every filter of the feed is one of this user. -/
def Feed.Of (userId : Uuid) (f : Feed δ) : Prop := ∀ filter ∈ f.filter, filter.userId = userId

/-- An operation that does not concern the subscriber changes nothing. -/
theorem Feed.step_eq_self {f : Feed δ} {op : BrokerOp δ} (hof : f.Of userId)
    (h : op.concerns subId userId = false) : f.step subId op = f := by
  cases op with
  | add subId' filter =>
      exact if_neg (by simpa [BrokerOp.concerns] using h)
  | remove subId' =>
      exact if_neg (by simpa [BrokerOp.concerns] using h)
  | read subId' =>
      exact if_neg (by simpa [BrokerOp.concerns] using h)
  | publish event =>
      apply Feed.offer_of_not
      intro filter hfilter hskips
      have huser := hof filter hfilter
      obtain ⟨haddressed, -⟩ := SubscriberFilter.skips_eq_false_iff.mp hskips
      rcases haddressed with hnobody | huser'
      · simp [BrokerOp.concerns, hnobody] at h
      · simp [BrokerOp.concerns, huser', huser] at h

/-- The feed stays one of its user. -/
theorem Feed.Of.step {f : Feed δ} {op : BrokerOp δ} (hof : f.Of userId)
    (hadd : ∀ filter, op = .add subId filter → filter.userId = userId) :
    (f.step subId op).Of userId := by
  cases op with
  | add subId' filter =>
      dsimp only [Feed.step]
      split
      · rename_i hsame
        subst hsame
        rintro g ⟨⟩
        exact hadd _ rfl
      · exact hof
  | remove subId' =>
      dsimp only [Feed.step]
      split
      · rintro g ⟨⟩
      · exact hof
  | publish event =>
      dsimp only [Feed.step, Feed.offer]
      split
      · exact hof
      split
      · exact hof
      · exact hof
  | read subId' =>
      dsimp only [Feed.step, Feed.take]
      split
      · split
        · exact hof
        · exact hof
      · exact hof

/-- **Only what concerns the client matters to it.** -/
theorem foldl_step_filter : ∀ {ops : List (BrokerOp δ)} {f : Feed δ}, f.Of userId →
    (∀ filter, .add subId filter ∈ ops → filter.userId = userId) →
      ops.foldl (Feed.step subId) f =
        (ops.filter (BrokerOp.concerns subId userId)).foldl (Feed.step subId) f
  | [], _, _, _ => rfl
  | op :: ops, f, hof, hadd => by
      have hrest : ∀ filter, .add subId filter ∈ ops → filter.userId = userId :=
        fun filter hmem => hadd filter (List.mem_cons_of_mem _ hmem)
      cases hconcerns : op.concerns subId userId with
      | true =>
          have hstep : (f.step subId op).Of userId :=
            hof.step fun filter heq => hadd filter (heq ▸ List.mem_cons_self)
          rw [List.filter_cons_of_pos hconcerns, List.foldl_cons, List.foldl_cons,
            foldl_step_filter hstep hrest]
      | false =>
          rw [List.filter_cons_of_neg (by simp [hconcerns]), List.foldl_cons,
            Feed.step_eq_self hof hconcerns, foldl_step_filter hof hrest]

/-- **A feed depends on the operations that concern its subscriber.** -/
theorem view_of_concerns (h : BrokerHistory δ) {filter : SubscriberFilter}
    (hadd : .add subId filter ∈ h.ops) :
    (BrokerRun.run h.ops).view subId =
      Feed.run subId (h.ops.filter (BrokerOp.concerns subId filter.userId)) := by
  rw [BrokerRun.view_run]
  refine foldl_step_filter (fun g hg => nomatch hg) fun g hg => ?_
  rw [add_unique h.drawnOnce hadd hg]

end

/-- **Delivery and isolation.** For every sequence of operations, what a client has read followed by
what its queue holds is exactly what it is due; and another run that differs only in events for
other users and in what becomes of other clients leaves the client with the same. -/
theorem feeds_exact_and_independent (h : BrokerHistory δ) (subId : Uuid) (filter : SubscriberFilter)
    (hadd : .add subId filter ∈ h.ops) :
    (BrokerRun.run h.ops).feed subId = due subId filter [] h.ops ∧
      ∀ h' : BrokerHistory δ,
        h'.ops.filter (BrokerOp.concerns subId filter.userId) =
          h.ops.filter (BrokerOp.concerns subId filter.userId) →
        (BrokerRun.run h'.ops).received subId = (BrokerRun.run h.ops).received subId ∧
          (BrokerRun.run h'.ops).subscribers.queue subId =
            (BrokerRun.run h.ops).subscribers.queue subId := by
  have hview := BrokerRun.view_run subId h.ops
  constructor
  · have hall := feed_all_append h.ops [] h.drawnOnce hadd
    have hfeed : (BrokerRun.run h.ops).feed subId = (Feed.run subId h.ops).all := by
      rw [← hview]
      rfl
    rw [hfeed]
    exact hall
  · intro h' heq
    have hadd' : .add subId filter ∈ h'.ops := by
      have hmem : .add subId filter ∈ h.ops.filter (BrokerOp.concerns subId filter.userId) :=
        List.mem_filter.mpr ⟨hadd, by simp [BrokerOp.concerns]⟩
      rw [← heq] at hmem
      exact (List.mem_filter.mp hmem).1
    have hsame : (BrokerRun.run h'.ops).view subId = (BrokerRun.run h.ops).view subId := by
      rw [view_of_concerns h hadd, view_of_concerns h' hadd', heq]
    exact ⟨congrArg Feed.received hsame, congrArg Feed.queue hsame⟩

/-- One client, an event for it, and one for somebody else. -/
def twoEvents : BrokerHistory Unit where
  ops := [.add (0, 0) ⟨(1, 0), ∅⟩, .publish { event := "a", data := (), userId := some (1, 0) },
    .publish { event := "b", data := (), userId := some (2, 0) }, .read (0, 0)]
  drawnOnce := List.nodup_singleton _

/-- Two events are fed to a subscriber. -/
theorem twoEvents_fed :
    (BrokerRun.run twoEvents.ops).feed (0, 0) = due (0, 0) ⟨(1, 0), ∅⟩ [] twoEvents.ops ∧
      ∀ h' : BrokerHistory Unit,
        h'.ops.filter (BrokerOp.concerns (0, 0) (1, 0)) =
          twoEvents.ops.filter (BrokerOp.concerns (0, 0) (1, 0)) →
        (BrokerRun.run h'.ops).received (0, 0) = (BrokerRun.run twoEvents.ops).received (0, 0) ∧
          (BrokerRun.run h'.ops).subscribers.queue (0, 0) =
            (BrokerRun.run twoEvents.ops).subscribers.queue (0, 0) :=
  feeds_exact_and_independent twoEvents (0, 0) ⟨(1, 0), ∅⟩ List.mem_cons_self

end SyncBack
