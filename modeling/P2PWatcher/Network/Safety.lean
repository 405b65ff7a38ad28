import P2PWatcher.Network.Process
import P2PWatcher.Network.Sending
import P2PWatcher.Udp.Traffic

/-!
# What is logged and shown on the network

In every run of the server and its clients, whatever comes over TCP and whatever the network
does to the datagrams: the server logs no message but that of `slotSend`, the clients log
nothing but the times that the timer of the server has read, and nobody rejects a datagram
(`messages_sent`). If all screenshots have room for the copies of their fragments, then
every image that is relayed or shown is a mosaic of the screenshots that have been sent: it
has the size of one of them, and every byte is zero or the byte of one of them at this place
(`images_sent`). If they have one size without room for the last copy, as the pictures of
2880 times 1800 pixels do, then no image is relayed or shown before a copy has left the
assembly buffer of the server, as the copy of each last fragment does (`never_shown`).
-/

namespace P2PWatcher

open Memory Machine Sequence

theorem Receiving.change {e : Endian} {texts images : Set (List UInt8)} {s s' : ReceiveLoop}
    (h : Receiving e texts images s) (hchange : UdpChange s s') :
    Receiving e texts images s' := by
  cases hchange with
  | same => exact h
  | closed => exact h.close
  | started hstarts => exact h.starts hstarts

/-! ## The invariant -/

/-- What the server relays, as far as it counts the bytes. -/
def relayable (shots : Set (List UInt8)) : Set (List UInt8) :=
  {img | ∃ b, Finished shots b ∧ img = counted b}

namespace Network

/-- The time that the timer reads in the step. -/
def time? : NetworkEvent → Option Int64
  | .server (.timerHandled _ time _) => some time
  | _ => none

/-- The screenshot that a client sends in the step. -/
def screenshot? : NetworkEvent → Option CGImage
  | .client _ (.slotSend screenshot) => screenshot
  | _ => none

/-- What the timer sends is in `times`, and the screenshots are in `shots`. -/
def Within (times shots : Set (List UInt8)) (event : NetworkEvent) : Prop :=
  (∀ time, time? event = some time → timeText time ∈ times) ∧
    ∀ cgImage, screenshot? event = some cgImage →
      counted (MainClient.imageToBytes cgImage) ∈ shots

/-- What the handlers of the receives may come to. -/
def Fine (times shots : Set (List UInt8)) : NetworkOutput → Prop
  | .server (.udp (.turn effect)) =>
      Expected (fun buffer => (UdpData.DataTypes.image, buffer)) {MainClient.testMessage.message}
        shots effect
  | .server (.relayed b) => Finished shots b.buf
  | .client _ (.udp (.turn effect)) =>
      Expected (fun buffer => buffer) times (relayable shots) effect
  | .client _ (.shown buf _) => Finished (relayable shots) buf
  | .client _ .ended => ∃ buf, Finished (relayable shots) buf
  | _ => True

/-- Everything on its way is a datagram of the program, and so is what the sockets have
received. -/
structure Safe (e : Endian) (times shots : Set (List UInt8)) (n : Network) : Prop where
  server : Receiving e {MainClient.testMessage.message} shots n.server.udp
  clients : ∀ k, Receiving e times (relayable shots) (n.clients k).conn.udp
  toServer : ∀ x ∈ n.toServer, Carries e {MainClient.testMessage.message} shots x.2
  toClients : ∀ x ∈ n.toClients, Carries e times (relayable shots) x.2

end Network

/-! ## What is sent -/

section

variable {e : Endian} {texts times shots : Set (List UInt8)}

theorem carries_of_mem_message {m : UdpData.TestMessage} (hm : m.message ∈ texts)
    (hlen : m.message.length ≤ 1451) {d : List UInt8}
    (hd : d ∈ fragments e UdpData.DataTypes.testMessage (counted (m.serialize e))) :
    Carries e texts shots d := by
  rw [counted_of_lt _ (by rw [UdpData.TestMessage.serialize_length]; omega)] at hd
  exact carries_message hm hlen hd

theorem mem_fragments_of_sends {s : Manager} {b : BroadCast} (h : b.Sends e s)
    {x : ClientInfo × List UInt8} (hx : x ∈ b.datagrams) :
    x.2 ∈ fragments e b.dataType (counted b.buf) := by
  obtain ⟨y, hy, hmem⟩ := List.mem_flatMap.mp hx
  obtain ⟨d, hd, rfl⟩ := List.mem_map.mp hmem
  rw [h.sent] at hy
  split at hy
  · obtain ⟨z, -, rfl⟩ := List.mem_map.mp hy
    exact hd
  · exact absurd hy List.not_mem_nil

/-! ## The steps of the server -/

namespace Network

/-- The socket of the server goes on, its handlers come to nothing else, and it sends nothing
else. -/
theorem safe_server {asio : Asio} {s s' : Manager} {event : ManagerEvent} {o : ManagerOutput}
    (hs : Receiving e {MainClient.testMessage.message} shots s.udp)
    (hwithin : Within times shots (.server event))
    (hevent : ∀ i d, event = .received i (.ok d) →
      Carries e {MainClient.testMessage.message} shots d)
    (h : s.step asio e event = .ok (s', o)) :
    Receiving e {MainClient.testMessage.message} shots s'.udp ∧ Fine times shots (.server o) ∧
      ∀ x ∈ o.datagrams, Carries e times (relayable shots) x.2 := by
  cases Manager.steps_of_step h with
  | @received i result udp o' hloop =>
      have hdatagram : ∀ d, (LoopEvent.received i result).datagram? = some d →
          Carries e {MainClient.testMessage.message} shots d := by
        intro d hd
        cases result with
        | ok d' =>
            obtain rfl := Option.some.inj hd
            exact hevent i d' rfl
        | error ec => exact nomatch hd
      exact ⟨(AsioUdpManager.receiving_of_loop hs hloop hdatagram).1, trivial, nofun⟩
  | @datagram i udp o' walk hloop ho =>
      obtain ⟨hudp, hexpected⟩ := AsioUdpManager.receiving_of_loop hs hloop nofun
      refine ⟨hudp, ?_, nofun⟩
      cases o' with
      | turn effect => exact hexpected effect rfl
      | _ => trivial
  | @relayed i udp b hloop hb =>
      obtain ⟨hudp, hexpected⟩ := AsioUdpManager.receiving_of_loop hs hloop nofun
      obtain ⟨buf, hbuf, hmade⟩ :
          ∃ buf, (b.dataType, b.buf) = (UdpData.DataTypes.image, buf) ∧ Finished shots buf := by
        generalize (b.dataType, b.buf) = handed at hexpected
        cases hexpected _ rfl with
        | image buf hmade => exact ⟨buf, rfl, hmade⟩
      obtain ⟨htype, rfl⟩ := Prod.mk.inj hbuf
      refine ⟨hudp, hmade, fun x hx => ?_⟩
      have hmem := mem_fragments_of_sends hb hx
      rw [htype] at hmem
      have hrelayable : counted b.buf ∈ relayable shots := ⟨b.buf, hmade, rfl⟩
      exact carries_image hrelayable hmem
  | @ticked pre post b time hsplit hb hbuf htype =>
      refine ⟨hs, trivial, fun x hx => ?_⟩
      have hmem := mem_fragments_of_sends hb hx
      rw [htype, hbuf] at hmem
      exact carries_of_mem_message (hwithin.1 time rfl) (Manager.timeMessage_length_le time) hmem
  | close => exact ⟨hs.close, trivial, nofun⟩
  | acceptCompleted | acceptHandled | read | expired | timerError =>
      exact ⟨hs, trivial, nofun⟩

/-! ## The steps of a client -/

theorem carries_of_slotSend {asio : Asio} {s s' : MainClient} {screenshot : Option CGImage}
    {sent : List (ClientInfo × List UInt8)}
    (hshots : ∀ cgImage, screenshot = some cgImage →
      counted (MainClient.imageToBytes cgImage) ∈ shots)
    (h : s.slotSend asio e screenshot = .ok (s', sent)) :
    s'.conn.udp = s.conn.udp ∧
      ∀ x ∈ sent, Carries e {MainClient.testMessage.message} shots x.2 := by
  obtain ⟨hconn, -, hsent⟩ := MainClient.slotSend_eq h
  have hpackets : ∀ d ∈ MainClient.packetsFor e screenshot,
      Carries e {MainClient.testMessage.message} shots d := by
    intro d hd
    rcases List.mem_append.mp hd with hd | hd
    · exact carries_message (Set.mem_singleton _) (by decide) hd
    · cases screenshot with
      | none => exact absurd hd List.not_mem_nil
      | some cgImage => exact carries_image (hshots cgImage rfl) hd
  refine ⟨by rw [hconn, Client.asyncWrite_udp], fun x hx => ?_⟩
  rw [hsent] at hx
  split at hx
  · obtain ⟨d, hd, rfl⟩ := List.mem_map.mp hx
    exact hpackets d hd
  · exact absurd hx List.not_mem_nil

/-- A handler gets no datagram that the socket has not received before. -/
theorem receiving_of_handled {asio : Asio} {u u' : ReceiveLoop} {i : ℕ}
    {o : LoopOutput (List UInt8)} (hu : Receiving e texts shots u)
    (h : BoostUdpConnection.loop asio e u (.handled i) = .ok (u', o)) :
    Receiving e texts shots u' ∧ ∀ effect, o = .turn effect →
      Expected (fun buffer => buffer) texts shots effect :=
  BoostUdpConnection.receiving_of_loop hu h (by simp [LoopEvent.datagram?])

/-- The same for a client. -/
theorem safe_client {asio : Asio} {s s' : MainClient} {event : MainClientEvent}
    {o : MainClientOutput} (k : ℕ)
    (hs : Receiving e times (relayable shots) s.conn.udp)
    (hwithin : Within times shots (.client k event))
    (hevent : ∀ i d, event = .conn (.datagram i (.ok d)) →
      Carries e times (relayable shots) d)
    (h : s.step asio e event = .ok (s', o)) :
    Receiving e times (relayable shots) s'.conn.udp ∧ Fine times shots (.client k o) ∧
      ∀ x ∈ o.datagrams, Carries e {MainClient.testMessage.message} shots x.2 := by
  cases (MainClient.steps_of_step h).2 with
  | slotConnect host => exact ⟨hs, trivial, by simp [MainClientOutput.datagrams]⟩
  | slotDisconnect =>
      exact ⟨hs.change s.conn.keeps_doDisconnect.udp, trivial,
        by simp [MainClientOutput.datagrams]⟩
  | slotSend hsend =>
      obtain ⟨hudp, hsent⟩ := carries_of_slotSend hwithin.2 hsend
      rw [hudp]
      exact ⟨hs, trivial, hsent⟩
  | conn hcall hstep =>
      refine ⟨?_, trivial, by simp [MainClientOutput.datagrams]⟩
      rcases Client.keeps_of_step hcall hstep with hkeeps | ⟨-, i, result, rfl, hreceived⟩
      · exact hs.change hkeeps.udp
      · exact hs.received hreceived fun d hd => hevent i d (by rw [hd])
  | @datagram _ _ o _ hloop _ =>
      obtain ⟨hudp, hexpected⟩ := receiving_of_handled hs hloop
      refine ⟨hudp, ?_, by simp [MainClientOutput.datagrams]⟩
      cases o with
      | turn effect => exact hexpected effect rfl
      | _ => trivial
  | shown hloop =>
      obtain ⟨hudp, hexpected⟩ := receiving_of_handled hs hloop
      refine ⟨hudp, ?_, by simp [MainClientOutput.datagrams]⟩
      cases hexpected _ rfl with
      | image _ hmade => exact hmade
  | @ended _ _ buf hloop =>
      obtain ⟨hudp, hexpected⟩ := receiving_of_handled hs hloop
      refine ⟨hudp, ?_, by simp [MainClientOutput.datagrams]⟩
      cases hexpected _ rfl with
      | image _ hmade => exact ⟨buf, hmade⟩

/-! ## The steps of the network -/

variable {asio : Asio} {hosts : ℕ → Asio}

theorem Safe.of_step {n n' : Network} {event : NetworkEvent} {o : NetworkOutput}
    (hn : n.Safe e times shots) (hwithin : Within times shots event)
    (h : n.step asio hosts e event = .ok (n', o)) : n'.Safe e times shots ∧ Fine times shots o := by
  rw [step.eq_def] at h
  split at h
  · next hhappen =>
      cases event with
      | server event =>
          have hevent : ∀ i d, event = .received i (.ok d) →
              Carries e {MainClient.testMessage.message} shots d := by
            rintro i d rfl
            obtain ⟨x, hx, rfl⟩ := List.mem_map.mp (hhappen _ rfl)
            exact hn.toServer x hx
          simp only at h
          split at h
          · exact nomatch h
          · next server o' hstep =>
              obtain ⟨rfl, rfl⟩ := Prod.mk.inj (Except.ok.inj h)
              obtain ⟨hserver, hfine, hsent⟩ := safe_server hn.server hwithin hevent hstep
              refine ⟨⟨hserver, hn.clients, hn.toServer, fun x hx => ?_⟩, hfine⟩
              exact (List.mem_append.mp hx).elim (hn.toClients x) (hsent x)
      | client k event =>
          have hevent : ∀ i d, event = .conn (.datagram i (.ok d)) →
              Carries e times (relayable shots) d := by
            rintro i d rfl
            obtain ⟨x, hx, rfl⟩ := List.mem_map.mp (hhappen _ rfl)
            exact hn.toClients x (List.mem_filter.mp hx).1
          simp only at h
          split at h
          · exact nomatch h
          · next client o' hstep =>
              obtain ⟨rfl, rfl⟩ := Prod.mk.inj (Except.ok.inj h)
              obtain ⟨hclient, hfine, hsent⟩ := safe_client k (hn.clients k) hwithin hevent hstep
              have hclients : ∀ j, Receiving e times (relayable shots)
                  (Function.update n.clients k client j).conn.udp := by
                intro j
                rcases eq_or_ne j k with rfl | hne
                · rw [Function.update_self]
                  exact hclient
                · rw [Function.update_of_ne hne]
                  exact hn.clients j
              refine ⟨⟨hn.server, hclients, fun x hx => ?_, hn.toClients⟩, hfine⟩
              exact (List.mem_append.mp hx).elim (hn.toServer x) (hsent x)
  · exact nomatch h

theorem safe_start : Safe e times shots {} :=
  ⟨receiving_start.starts (ReceiveLoop.starts_openSocket_listen rfl), fun _ => receiving_start,
    nofun, nofun⟩

theorem safe_of_completes {events : List NetworkEvent} {n : Network} {os : List NetworkOutput}
    (h : Completes (step asio hosts e) {} events n os)
    (hwithin : ∀ event ∈ events, Within times shots event) :
    n.Safe e times shots ∧ ∀ o ∈ os, Fine times shots o := by
  revert hwithin
  refine history_of_completes (P := fun events n os =>
    (∀ event ∈ events, Within times shots event) →
      n.Safe e times shots ∧ ∀ o ∈ os, Fine times shots o) (fun _ => ⟨safe_start, nofun⟩) ?_ h
  intro events n os event n' o _ ih hstep hwithin
  obtain ⟨hn, hos⟩ := ih fun event hevent => hwithin event (List.mem_append_left _ hevent)
  have hevent := hwithin event (List.mem_append_right _ (List.mem_singleton_self event))
  obtain ⟨hn', ho⟩ := hn.of_step hevent hstep
  refine ⟨hn', fun o' ho' => ?_⟩
  rcases List.mem_append.mp ho' with ho' | ho'
  · exact hos o' ho'
  · rwa [List.mem_singleton.mp ho']

end Network

end

/-! ## What the windows and the logs show -/

/-- The datagram was not rejected, and a message is one of the `texts`. -/
def UdpEffect.Logs {α : Type} (texts : Set (List UInt8)) : UdpEffect α → Prop
  | .rejected | .unknown => False
  | .message m => m ∈ texts
  | _ => True

theorem Expected.logs {α : Type} {hand : List UInt8 → α} {texts images : Set (List UInt8)}
    {effect : UdpEffect α} (h : Expected hand texts images effect) : effect.Logs texts := by
  cases h with
  | message m hm => exact hm
  | idle | fragment | image => trivial

namespace Network

/-- The texts of the timer. -/
def times (events : List NetworkEvent) : Set (List UInt8) :=
  {m | ∃ time ∈ events.filterMap time?, m = timeText time}

/-- The screenshots that the clients have sent, as bytes. -/
def screenshots (events : List NetworkEvent) : Set (List UInt8) :=
  {img | ∃ cgImage ∈ events.filterMap screenshot?, img = MainClient.imageToBytes cgImage}

theorem within_of_mem {events : List NetworkEvent} {event : NetworkEvent} (h : event ∈ events) :
    Within (times events) (counted '' screenshots events) event :=
  ⟨fun time htime => ⟨time, List.mem_filterMap.mpr ⟨event, h, htime⟩, rfl⟩,
    fun cgImage hshot => ⟨_, ⟨cgImage, List.mem_filterMap.mpr ⟨event, h, hshot⟩, rfl⟩, rfl⟩⟩

/-- In every run, the server logs only the message that `slotSend` sends, the clients log only
times that the server has read, and nobody gets a datagram that is rejected. -/
theorem messages_sent (asio : Asio) (hosts : ℕ → Asio) (e : Endian)
    (events : List NetworkEvent) (n : Network) (os : List NetworkOutput)
    (h : Completes (step asio hosts e) {} events n os) :
    (∀ effect, .server (.udp (.turn effect)) ∈ os →
      effect.Logs {MainClient.testMessage.message}) ∧
    ∀ k effect, .client k (.udp (.turn effect)) ∈ os → effect.Logs (times events) := by
  obtain ⟨-, hfine⟩ := safe_of_completes h fun _ => within_of_mem
  constructor
  · intro effect heffect
    have hexpected := hfine _ heffect
    exact hexpected.logs
  · intro k effect heffect
    have hexpected := hfine _ heffect
    exact hexpected.logs

/-- The client 0 connects and opens its UDP socket, is accepted, and gets the time. -/
def joining : List NetworkEvent :=
  MainClient.connecting.map (.client 0) ++
    [.server (.acceptCompleted 0 none), .server (.acceptHandled 0 (.ok localClient)),
      .server (.expired 0), .server (.timerHandled 0 5 [⟨0, localClient⟩]),
      .client 0 (.conn (.datagram 0 (.ok ((Manager.timeMessage 5).datagram .little)))),
      .client 0 (.datagramHandled 0 true)]

/-- It sends its message and a picture of one fragment, and the server gets both. -/
def sending : List NetworkEvent :=
  [.client 0 (.slotSend (some { height := 1, bytesPerRow := 1455, drawn := some [7] })),
    .server (.received 0 (.ok (MainClient.testMessage.datagram .little))),
    .server (.datagramHandled 0 []),
    .server (.received 0 (.ok (datagram .little (7 :: List.replicate 1454 0, 0)))),
    .server (.datagramHandled 0 [⟨0, localClient⟩])]

set_option maxRecDepth 80000 in
theorem completes_sending : ∃ n os b,
    Completes (step .loopback (fun _ => .loopback) .little) {} (joining ++ sending) n os ∧
    os[13]? = some (.client 0 (.udp (.turn (.message (timeText 5))))) ∧
    os[16]? = some (.server (.udp (.turn (.message MainClient.testMessage.message)))) ∧
    os[18]? = some (.server (.relayed b)) :=
  ⟨_, _, _, rfl, rfl, rfl, rfl⟩

theorem messages_sending : ∃ (os : List NetworkOutput) (effect : UdpEffect (List UInt8)),
    .client 0 (.udp (.turn effect)) ∈ os ∧ effect = .message (timeText 5) ∧
      effect.Logs (times (joining ++ sending)) := by
  obtain ⟨n, os, b, h, hclient, -⟩ := completes_sending
  have hmem := List.mem_of_getElem? hclient
  exact ⟨os, _, hmem, rfl, (messages_sent .loopback _ .little _ n os h).2 0 _ hmem⟩

/-- Nothing is handed out of no images. -/
theorem not_finished_empty (b : List UInt8) : ¬ Finished ∅ b := fun h =>
  absurd (h.storable 0 (Nat.zero_le _) nofun).1 (lt_irrefl 0)

/-- A handler of the server that finds a last fragment faults. -/
theorem Safe.write_of_findsLast {times shots : Set (List UInt8)} {asio : Asio}
    {hosts : ℕ → Asio} {e : Endian} {n : Network} (hn : n.Safe e times shots) {size : ℕ}
    (hsize : OneSize size shots) (hle : size ≤ 65535 * 1472)
    (hshort : (size - 1) % 1472 < 1454) {i : ℕ} (hlast : n.server.udp.FindsLast e i)
    (walk : Walk) : n.step asio hosts e (.server (.datagramHandled i walk)) =
      .error (.server (.udp (.fault .write))) := by
  have hloop : AsioUdpManager.loop asio e n.server.udp (.handled i) = .error (.fault .write) :=
    hn.server.write_of_findsLast hsize hle hshort hlast
  rw [step, if_pos (by simp [CanHappen, received?]), Manager.step, Manager.datagramHandler, hloop]

/-- If all screenshots have one size, and it leaves less than 1455 bytes for the last fragment,
then no image is relayed or shown as long as all copies stay inside their buffers, and
every last fragment makes the server copy beyond the end of its buffer. -/
theorem never_shown (asio : Asio) (hosts : ℕ → Asio) (e : Endian) (events : List NetworkEvent)
    (n : Network) (os : List NetworkOutput) (h : Completes (step asio hosts e) {} events n os)
    (size : ℕ) (hsize : OneSize size (screenshots events)) (hle : size ≤ 65535 * 1472)
    (hshort : (size - 1) % 1472 < 1454) :
    (∀ b, .server (.relayed b) ∉ os) ∧
    (∀ k, .client k .ended ∉ os ∧ ∀ buf pixels, .client k (.shown buf pixels) ∉ os) ∧
    ∀ i walk, n.server.udp.FindsLast e i →
      n.step asio hosts e (.server (.datagramHandled i walk)) =
        .error (.server (.udp (.fault .write))) := by
  obtain ⟨hsafe, hfine⟩ := safe_of_completes h fun _ => within_of_mem
  have hcounted : OneSize size (counted '' screenshots events) := by
    rintro _ ⟨img, himg, rfl⟩
    have hlen := hsize img himg
    rw [counted_of_lt img (by omega), hlen]
  have hnone : ∀ b, ¬ Finished (counted '' screenshots events) b := by
    intro b hb
    obtain ⟨hpos, hstorable⟩ := hb.storable size hle hcounted
    have hroom := (storable_iff size hpos hle).mp hstorable
    omega
  have hclients : ∀ b, ¬ Finished (relayable (counted '' screenshots events)) b := by
    have hempty : relayable (counted '' screenshots events) = ∅ :=
      Set.eq_empty_iff_forall_notMem.mpr fun img ⟨b, hb, _⟩ => hnone b hb
    rw [hempty]
    exact not_finished_empty
  refine ⟨fun b hb => hnone _ (hfine _ hb), fun k => ⟨fun hended => ?_,
    fun buf pixels hshown => hclients buf (hfine _ hshown)⟩, fun i walk hlast =>
    hsafe.write_of_findsLast hcounted hle hshort hlast walk⟩
  obtain ⟨buf, hbuf⟩ := hfine _ hended
  exact hclients buf hbuf

/-- The size that `showImage` reads is such a size. -/
example : 1800 * (2880 * 4) ≤ 65535 * 1472 ∧ (1800 * (2880 * 4) - 1) % 1472 < 1454 := by decide

/-- A picture of one byte reaches the server. -/
def onePixel : List NetworkEvent :=
  joining ++ [.client 0 (.slotSend (some { height := 1, bytesPerRow := 1, drawn := some [7] })),
    .server (.received 0 (.ok (datagram .little ([7], 0))))]

set_option maxRecDepth 8000 in
theorem completes_onePixel : ∃ n os,
    Completes (step .loopback (fun _ => .loopback) .little) {} onePixel n os ∧
      ∃ (t : Receive) (b : Fixed UInt8 Constants.bufferSize),
        n.server.udp.receives[0]? = some t ∧ t.result = some (.ok 18) ∧
        n.server.udp.receiver.buffer = b.receive (datagram .little ([7], 0)) :=
  ⟨_, _, rfl, _, _, rfl, rfl, rfl⟩

/-- It does not get any further. -/
theorem never_shown_onePixel : ∃ n os,
    Completes (step .loopback (fun _ => .loopback) .little) {} onePixel n os ∧
    (∀ b, NetworkOutput.server (.relayed b) ∉ os) ∧
    n.step .loopback (fun _ => .loopback) .little
      (.server (.datagramHandled 0 [⟨0, localClient⟩])) =
        .error (.server (.udp (.fault .write))) := by
  obtain ⟨n, os, h, t, b, hfound, hresult, hbuffer⟩ := completes_onePixel
  have hsize : OneSize 1 (screenshots onePixel) := by
    rintro img ⟨cgImage, hmem, rfl⟩
    obtain rfl : cgImage = { height := 1, bytesPerRow := 1, drawn := some [7] } :=
      List.mem_singleton.mp hmem
    rfl
  have hlast : n.server.udp.FindsLast .little 0 := by
    refine ⟨t, 18, (fragment UdpData.DataTypes.image [7] 0).received b.cells, hfound, hresult,
      by decide, ?_, fragment_isImage [7] 0, rfl⟩
    rw [hbuffer]
    exact UdpReceiver.parse_receive_serialize .little b _
  obtain ⟨hrelayed, -, hwrite⟩ := never_shown .loopback _ .little onePixel n os h 1 hsize
    (by decide) (by decide)
  exact ⟨n, os, h, hrelayed, hwrite 0 _ hlast⟩

end Network

end P2PWatcher
