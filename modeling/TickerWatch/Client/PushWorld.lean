import TickerWatch.Client.UsePushPrices
import TickerWatch.Foundations.System

/-!
# The push client, the snapshot endpoint and Centrifugo

One browser and the server it is connected to.  A tick changes the server's prices and publishes
the changes in one step; Centrifugo puts a publication on the wire of the connection, in order and
without history, if its channel is subscribed to at that moment.  The answer to `GET /watchlist`
is computed at one moment and applied at a later one, and any number of requests may be under way.

Two things are kept as history and decide nothing: whether a snapshot that is under way has lost an
update since it was computed (`WatchlistRequest.served`), and whether a resync has completed since
the last one was started (`resynced`).
-/

namespace TickerWatch

universe u

/-- The server's price of one ticker. -/
structure Quote (P : Type u) where
  price : P
  effectiveAt : Instant
  source : String
  deriving DecidableEq

/-- What a tick found changed about one ticker. -/
structure Change (P : Type u) where
  securityId : SecurityId
  price : P
  source : String
  deriving DecidableEq

/-- A `GET /watchlist` under way. -/
inductive WatchlistRequest (P : Type u)
  | sent
  | served (items : List (WatchlistItem P)) (whole : Bool)

/-- The server, the connection and the client.  Whatever is sent on an established channel waits on
the wire in the order it was published, and a lost connection drops it.  `resynced` is history: on
this connection a snapshot has been applied since the last resync was started. -/
structure PushWorld (P : Type u) where
  prices : Dict Ticker (Quote P)
  clock : Instant
  members : List MemberRow
  connected : Bool
  /-- The channels Centrifugo delivers. -/
  established : List Ticker
  /-- The publications sent and not yet received. -/
  wire : List (Publication P)
  client : PushClient P
  requests : Dict ℕ (WatchlistRequest P)
  nextRequest : ℕ
  resynced : Bool

/-- What can happen.  A resync is started by `connected` and by `refresh`, which is also what an
added or a removed ticker ends with. -/
inductive PushEvent (P : Type u)
  | mount
  | cleanup
  | connected
  | disconnected
  | established (t : Ticker)
  | tick (now : Instant) (changed : Dict Ticker (Change P))
  | deliver
  | join (row : MemberRow)
  | leave (id : SecurityId)
  | refresh
  | serve (request : ℕ)
  | respond (request : ℕ)
  | fail (request : ℕ) (message : String)

section

variable {P : Type u}

/-- The price as a snapshot reads it. -/
def Quote.toPrice (q : Quote P) (id : SecurityId) : Price P :=
  ⟨id, q.price, toIso q.effectiveAt, q.source⟩

/-- What an item and an event that stem from a quote say. -/
def Quote.write (q : Quote P) : String × Option P × Option String :=
  (toIso q.effectiveAt, some q.price, some q.source)

/-- The quote of a changed ticker. -/
def Change.quote (c : Change P) (now : Instant) : Quote P := ⟨c.price, now, c.source⟩

/-- The `data` of the publication of a changed ticker. -/
def Change.publication (c : Change P) (now : Instant) (t : Ticker) : Publication P :=
  ⟨c.securityId, t, c.price, toIso now, c.source⟩

/-- No event of an item's ticker is news to it. -/
def WatchlistItem.upToDate (it : WatchlistItem P) (evs : List (Publication P)) : Bool :=
  evs.all fun ev => decide (ev.ticker ≠ it.ticker) || it.supersedes ev

/-- A request whose snapshot the events will not reach any more. -/
def WatchlistRequest.lose (evs : List (Publication P)) : WatchlistRequest P → WatchlistRequest P
  | .sent => .sent
  | .served items whole => .served items (whole && items.all fun it => it.upToDate evs)

namespace PushWorld

/-- The requests when the events will not reach their snapshots any more. -/
def lose (w : PushWorld P) (evs : List (Publication P)) : Dict ℕ (WatchlistRequest P) :=
  w.requests.mapValues fun _ request => request.lose evs

/-- The items `get_watchlist` returns now. -/
def snapshot (w : PushWorld P) : List (WatchlistItem P) :=
  w.members.map fun row => row.toItem ((w.prices.get? row.ticker).map fun q => q.toPrice row.id)

/-- A resync empties the buffer and sends its request. -/
def startResync (w : PushWorld P) : PushWorld P :=
  { w with
    client := w.client.beginResync
    requests := (w.lose w.client.buffer).set w.nextRequest .sent
    nextRequest := w.nextRequest + 1
    resynced := false }

/-- The connection is gone, and what was on the wire with it. -/
def close (w : PushWorld P) : PushWorld P :=
  { w with
    connected := false
    established := []
    wire := []
    requests := w.lose w.wire
    resynced := false }

/-- The publications of a tick. -/
def publications (now : Instant) (changed : Dict Ticker (Change P)) : List (Publication P) :=
  changed.entries.map fun e => e.2.publication now e.1

/-- Whether Centrifugo sends a publication to this connection. -/
def reaches (w : PushWorld P) (ev : Publication P) : Bool := w.established.contains ev.ticker

/-- Centrifugo takes the publications of a tick: those that reach the connection go on the wire. -/
def send (w : PushWorld P) (now : Instant) (changed : Dict Ticker (Change P)) : PushWorld P :=
  { w with
    wire := w.wire ++ (publications now changed).filter w.reaches
    requests := w.lose ((publications now changed).filter fun ev => !w.reaches ev) }

/-- A tick of the server. -/
def tick (w : PushWorld P) (now : Instant) (changed : Dict Ticker (Change P)) : PushWorld P :=
  { w with
    prices := w.prices.update (changed.mapValues fun _ c => c.quote now)
    clock := now
    wire := w.wire ++ (publications now changed).filter w.reaches
    requests := w.lose ((publications now changed).filter fun ev => !w.reaches ev) }

/-- A publication arrives.  Without a subscription there is no handler. -/
def receive (w : PushWorld P) (ev : Publication P) (wire : List (Publication P)) : PushWorld P :=
  if w.client.subs.contains ev.ticker then
    { w with
      wire := wire
      client := w.client.onPublication ev
      requests := if w.client.buffering then w.requests else w.lose [ev] }
  else { w with wire := wire, requests := w.lose [ev] }

/-- A response arrives: the client applies it, drains its buffer and adjusts its subscriptions. -/
def respond (w : PushWorld P) (request : ℕ) (items : List (WatchlistItem P)) : PushWorld P :=
  { w with
    client := w.client.finishResync items
    established := w.established.filter (w.client.finishResync items).subs.contains
    requests := (w.lose w.client.buffer).erase request
    resynced := w.connected }

/-- One event. -/
def step (w : PushWorld P) : PushEvent P → Option (PushWorld P)
  | .mount => if w.client.hasClient then none else some { w with client := w.client.connect }
  | .cleanup =>
    if w.client.hasClient then some { w.close with client := w.client.cleanup } else none
  | .connected =>
    if w.client.hasClient && !w.connected then some { w.startResync with connected := true }
    else none
  | .disconnected => if w.connected then some w.close else none
  | .established t =>
    if w.connected && w.client.subs.contains t && !w.established.contains t then
      some { w with established := w.established ++ [t] }
    else none
  | .tick now changed => if w.clock < now then some (w.tick now changed) else none
  | .deliver =>
    match w.wire with
    | [] => none
    | ev :: wire => some (w.receive ev wire)
  | .join row => if row ∈ w.members then some w else some { w with members := w.members ++ [row] }
  | .leave id => some { w with members := w.members.filter fun row => decide (row.id ≠ id) }
  | .refresh => some w.startResync
  | .serve request =>
    match w.requests.get? request with
    | some .sent => some { w with requests := w.requests.set request (.served w.snapshot true) }
    | _ => none
  | .respond request =>
    match w.requests.get? request with
    | some (.served items _) => some (w.respond request items)
    | _ => none
  | .fail request message =>
    match w.requests.get? request with
    | some _ =>
      some { w with
        client := w.client.failResync message
        requests := w.requests.erase request }
    | none => none

/-- The system, from any prices and any membership. -/
def system : System (PushWorld P) (PushEvent P) where
  init w := (∀ t q, w.prices.get? t = some q → q.effectiveAt ≤ w.clock) ∧ w.connected = false ∧
    w.established = [] ∧ w.wire = [] ∧ w.client = PushClient.initial ∧ w.requests = .empty ∧
    w.resynced = false
  step := step

/-! ## What an event does to the client -/

/-- The handler of the client that an event runs. -/
def clientAfter (w : PushWorld P) : PushEvent P → PushClient P
  | .mount => w.client.connect
  | .cleanup => w.client.cleanup
  | .connected | .refresh => w.client.beginResync
  | .deliver =>
    match w.wire with
    | [] => w.client
    | ev :: _ => if w.client.subs.contains ev.ticker then w.client.onPublication ev else w.client
  | .respond request =>
    match w.requests.get? request with
    | some (.served items _) => w.client.finishResync items
    | _ => w.client
  | .fail _ message => w.client.failResync message
  | .disconnected | .established _ | .tick .. | .join _ | .leave _ | .serve _ => w.client

/-- The requests under way after an event. -/
def requestsAfter (w : PushWorld P) : PushEvent P → Dict ℕ (WatchlistRequest P)
  | .mount | .established _ | .join _ | .leave _ => w.requests
  | .cleanup | .disconnected => w.lose w.wire
  | .connected | .refresh => (w.lose w.client.buffer).set w.nextRequest .sent
  | .tick now changed => w.lose ((publications now changed).filter fun ev => !w.reaches ev)
  | .deliver =>
    match w.wire with
    | [] => w.requests
    | ev :: _ =>
      if w.client.subs.contains ev.ticker && w.client.buffering then w.requests else w.lose [ev]
  | .serve request => w.requests.set request (.served w.snapshot true)
  | .respond request => (w.lose w.client.buffer).erase request
  | .fail request _ => w.requests.erase request

/-- An event changes the client by its handler only, and the requests as `requestsAfter` says. -/
theorem step_eq {w w' : PushWorld P} {e : PushEvent P} (h : w.step e = some w') :
    w'.client = w.clientAfter e ∧ w'.requests = w.requestsAfter e := by
  have hguard : ∀ {c : Prop} [Decidable c] {v : PushWorld P},
      (if c then some v else none) = some w' → v = w' :=
    fun h => Option.some.inj (Option.ite_none_right_eq_some.1 h).2
  cases e with
  | mount =>
    rw [step] at h
    split at h
    · exact absurd h (by simp)
    · rw [← Option.some.inj h]
      exact ⟨rfl, rfl⟩
  | cleanup =>
    rw [← hguard h]
    exact ⟨rfl, rfl⟩
  | connected =>
    rw [← hguard h]
    exact ⟨rfl, rfl⟩
  | disconnected =>
    rw [← hguard h]
    exact ⟨rfl, rfl⟩
  | established t =>
    rw [← hguard h]
    exact ⟨rfl, rfl⟩
  | tick now changed =>
    rw [← hguard h]
    exact ⟨rfl, rfl⟩
  | deliver =>
    rw [step] at h
    rw [clientAfter, requestsAfter]
    split at h
    · exact absurd h (by simp)
    · rename_i ev wire _
      rw [← Option.some.inj h, receive]
      -- an event of a channel that was dropped is delivered to nobody
      cases hsub : w.client.subs.contains ev.ticker with
      | true => exact ⟨rfl, rfl⟩
      | false => exact ⟨rfl, rfl⟩
  | join row =>
    rw [step] at h
    split at h
    · rw [← Option.some.inj h]
      exact ⟨rfl, rfl⟩
    · rw [← Option.some.inj h]
      exact ⟨rfl, rfl⟩
  | leave id =>
    rw [← Option.some.inj h]
    exact ⟨rfl, rfl⟩
  | refresh =>
    rw [← Option.some.inj h]
    exact ⟨rfl, rfl⟩
  | serve request =>
    rw [step] at h
    split at h
    · rw [← Option.some.inj h]
      exact ⟨rfl, rfl⟩
    · exact absurd h (by simp)
  | respond request =>
    rw [step] at h
    rw [clientAfter, requestsAfter]
    split at h
    · rw [← Option.some.inj h]
      exact ⟨rfl, rfl⟩
    · exact absurd h (by simp)
  | fail request message =>
    rw [step] at h
    split at h
    · rw [← Option.some.inj h]
      exact ⟨rfl, rfl⟩
    · exact absurd h (by simp)

/-! ## Prices move forward -/

variable {w : PushWorld P} {prices prices' : Dict Ticker (Quote P)} {now : Instant}
  {changed : Dict Ticker (Change P)} {t : Ticker} {it : WatchlistItem P}
  {evs evs' : List (Publication P)} {ev : Publication P}

lemma get?_prices_tick : (w.tick now changed).prices.get? t =
    ((changed.get? t).map fun c => c.quote now).or (w.prices.get? t) := by
  rw [tick, Dict.get?_update, Dict.get?_mapValues]

lemma mem_publications : ev ∈ publications now changed ↔
    ∃ t c, changed.get? t = some c ∧ c.publication now t = ev := by
  simp only [publications, List.mem_map, Prod.exists, Dict.get?_eq_some_iff]

end PushWorld
end

end TickerWatch
