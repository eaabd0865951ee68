import Wosh.Client.Cases

set_option relaxedAutoImplicit false
set_option autoImplicit false

/-!
# The tasks of a session and their connections

Every generation has one reader and one writer, on the connection installed under it. A resume
holds at most one connection, which is not installed, and at most one resume is alive.

## Main definitions

* `Client.World.Tasks` — the invariant.
* `Client.Next.Fits` — what a step may go on with.

## Main results

* `Client.World.Tasks.step`, `Client.World.tasks_run` — it holds in every session with frames.
-/

namespace Client

open Tunnel

namespace World

/-- No resume is alive. -/
def NoLoop (w : World) : Prop :=
  ∀ (i : ℕ) (loop : Loop), w.loops[i]? = some loop → loop.pc = .done

/-- The invariant of the tasks of a session with frames. -/
structure Tasks (w : World) : Prop where
  framed : w.proto.framed = true
  readers_length : w.readers.length = w.generation + 1
  writers_length : w.writers.length = w.generation + 1
  current : ∃ conn, w.conns[w.conn]? = some conn ∧ conn.installed = some w.generation
  reader : ∀ {g : ℕ} {r : Reader}, w.readers[g]? = some r →
    ∃ conn, w.conns[r.conn]? = some conn ∧ conn.installed = some g
  writer : ∀ {g : ℕ} {t : Writer}, w.writers[g]? = some t →
    ∃ conn, w.conns[t.conn]? = some conn ∧ conn.installed = some g
  /-- A connection is installed under one generation, and no other is under the same. -/
  installed : ∀ {c c' g : ℕ} {conn conn' : Conn}, w.conns[c]? = some conn →
    w.conns[c']? = some conn' → conn.installed = some g → conn'.installed = some g → c = c'
  installed_le : ∀ {c g : ℕ} {conn : Conn}, w.conns[c]? = some conn → conn.installed = some g →
    g ≤ w.generation
  /-- A resume holds a connection that is not installed. -/
  held : ∀ {i c : ℕ} {loop : Loop}, w.loops[i]? = some loop → loop.pc.conn = some c →
    ∃ conn, w.conns[c]? = some conn ∧ conn.installed = none
  live : ∀ {i : ℕ} {loop : Loop}, w.loops[i]? = some loop → loop.pc ≠ .done → w.resuming = true
  alone : ∀ {i j : ℕ} {loop loop' : Loop}, w.loops[i]? = some loop → loop.pc ≠ .done →
    w.loops[j]? = some loop' → loop'.pc ≠ .done → i = j

end World

/-- What a step may go on with: the top of a live resume, or a death when no resume is alive. -/
def Next.Fits (w : World) : Next → Prop
  | .top i => ∃ loop, w.loops[i]? = some loop ∧ loop.pc ≠ .done
  | .die _ => w.NoLoop
  | _ => True

/-- Connections installed under the same generation, or both under none. -/
def Conn.Kin (conn conn' : Conn) : Prop := conn'.installed = conn.installed

theorem Conn.Kin.refl (conn : Conn) : conn.Kin conn := rfl

theorem Conn.Kin.trans {conn conn' conn'' : Conn} (h : conn.Kin conn') (h' : conn'.Kin conn'') :
    conn.Kin conn'' := Eq.trans h' h

theorem Conn.Heard.kin {conn conn' : Conn} (h : conn.Heard conn') : conn.Kin conn' := by
  rw [Conn.Heard] at h
  rw [Conn.Kin, h]

/-- A writer that is still on its connection. -/
def Writer.Stays (t t' : Writer) : Prop := t'.conn = t.conn

theorem Writer.Stays.refl (t : Writer) : t.Stays t := rfl

namespace World

variable {w w' : World}

namespace Tasks

/-- The tasks are the same, on the same connections, and the resumes fit. -/
theorem move (h : w.Tasks) (hproto : w'.proto = w.proto) (hgen : w'.generation = w.generation)
    (hconn : w'.conn = w.conn) (hreaders : Slots.Related Reader.Stays w.readers w'.readers)
    (hwriters : Slots.Related Writer.Stays w.writers w'.writers)
    (hconns : Slots.Related Conn.Kin w.conns w'.conns)
    (hheld : ∀ {i c : ℕ} {loop : Loop}, w'.loops[i]? = some loop → loop.pc.conn = some c →
      ∃ conn, w.conns[c]? = some conn ∧ conn.installed = none)
    (hlive : ∀ {i : ℕ} {loop : Loop}, w'.loops[i]? = some loop → loop.pc ≠ .done →
      w'.resuming = true)
    (halone : ∀ {i j : ℕ} {loop loop' : Loop}, w'.loops[i]? = some loop → loop.pc ≠ .done →
      w'.loops[j]? = some loop' → loop'.pc ≠ .done → i = j) : w'.Tasks where
  framed := by rw [hproto]; exact h.framed
  readers_length := by rw [hreaders.length_eq, hgen]; exact h.readers_length
  writers_length := by rw [hwriters.length_eq, hgen]; exact h.writers_length
  current := by
    obtain ⟨conn, hc, hinst⟩ := h.current
    obtain ⟨conn', hc', hkin⟩ := hconns.exists hc
    exact ⟨conn', by rw [hconn]; exact hc', by rw [hgen]; exact Eq.trans hkin hinst⟩
  reader hr := by
    obtain ⟨r, hr, hstays⟩ := hreaders.slot hr
    obtain ⟨conn, hc, hinst⟩ := h.reader hr
    obtain ⟨conn', hc', hkin⟩ := hconns.exists hc
    exact ⟨conn', by rw [hstays]; exact hc', Eq.trans hkin hinst⟩
  writer ht := by
    obtain ⟨t, ht, hstays⟩ := hwriters.slot ht
    obtain ⟨conn, hc, hinst⟩ := h.writer ht
    obtain ⟨conn', hc', hkin⟩ := hconns.exists hc
    exact ⟨conn', by rw [hstays]; exact hc', Eq.trans hkin hinst⟩
  installed hc hc' hg hg' := by
    obtain ⟨a, ha, hkin⟩ := hconns.slot hc
    obtain ⟨b, hb, hkin'⟩ := hconns.slot hc'
    exact h.installed ha hb (Eq.trans hkin.symm hg) (Eq.trans hkin'.symm hg')
  installed_le hc hg := by
    obtain ⟨a, ha, hkin⟩ := hconns.slot hc
    rw [hgen]
    exact h.installed_le ha (Eq.trans hkin.symm hg)
  held hl hc := by
    obtain ⟨conn, hconn, hinst⟩ := hheld hl hc
    obtain ⟨conn', hconn', hkin⟩ := hconns.exists hconn
    exact ⟨conn', hconn', Eq.trans hkin hinst⟩
  live := hlive
  alone := halone

/-- So are they when the resumes are left alone. -/
theorem keep (h : w.Tasks) (hproto : w'.proto = w.proto) (hgen : w'.generation = w.generation)
    (hconn : w'.conn = w.conn) (hreaders : Slots.Related Reader.Stays w.readers w'.readers)
    (hwriters : Slots.Related Writer.Stays w.writers w'.writers)
    (hconns : Slots.Related Conn.Kin w.conns w'.conns) (hloops : w'.loops = w.loops)
    (hresuming : w'.resuming = w.resuming) : w'.Tasks := by
  refine h.move hproto hgen hconn hreaders hwriters hconns (fun hl hc => ?_) (fun hl hpc => ?_)
    fun hl hpc hl' hpc' => ?_
  · rw [hloops] at hl
    exact h.held hl hc
  · rw [hloops] at hl
    rw [hresuming]
    exact h.live hl hpc
  · rw [hloops] at hl hl'
    exact h.alone hl hpc hl' hpc'

theorem quiet (h : w.Tasks) (hq : w.Quiet w') : w'.Tasks :=
  h.keep (by rw [hq.only]) (by rw [hq.only]) (by rw [hq.only]) hq.readers
    (by rw [hq.only]; exact .refl Writer.Stays.refl _)
    ⟨hq.conns.length_eq, fun hc =>
      let ⟨conn, hconn, hheard⟩ := hq.conns.slot hc
      ⟨conn, hconn, hheard.kin⟩⟩
    (by rw [hq.only]) (by rw [hq.only])

/-- Two readers are on two connections. -/
theorem reader_ne (h : w.Tasks) {g g' : ℕ} {r r' : Reader} (hr : w.readers[g]? = some r)
    (hr' : w.readers[g']? = some r') (hne : g ≠ g') : r.conn ≠ r'.conn := by
  intro heq
  obtain ⟨a, ha, hinst⟩ := h.reader hr
  obtain ⟨b, hb, hinst'⟩ := h.reader hr'
  rw [heq] at ha
  cases ha.symm.trans hb
  exact hne (Option.some.inj (hinst.symm.trans hinst'))

/-- A resume goes on, on a connection that is not installed or on none. -/
theorem setLoop (h : w.Tasks) {i : ℕ} {loop loop' : Loop} (hloop : w.loops[i]? = some loop)
    (hlive : loop.pc ≠ .done) (hw : w' = { w with
      conns := w'.conns, replay := w'.replay, hellos := w'.hellos, dials := w'.dials
      loops := w.loops.set i loop' })
    (hconns : Slots.Related Conn.Kin w.conns w'.conns)
    (hheld : ∀ c, loop'.pc.conn = some c →
      ∃ conn, w.conns[c]? = some conn ∧ conn.installed = none) : w'.Tasks := by
  have hloops : w'.loops = w.loops.set i loop' := by rw [hw]
  refine h.move (by rw [hw]) (by rw [hw]) (by rw [hw]) (by rw [hw]; exact .refl Reader.Stays.refl _)
    (by rw [hw]; exact .refl Writer.Stays.refl _) hconns (fun hl hc => ?_) (fun _ _ => ?_)
    fun hl hpc hl' hpc' => ?_
  · rw [hloops] at hl
    rcases Slots.getElem?_set_eq_some hl with ⟨-, rfl⟩ | ⟨-, hl⟩
    · exact hheld _ hc
    · exact h.held hl hc
  · rw [hw]
    exact h.live hloop hlive
  · -- the entries at other positions were alive next to this one before
    have hback : ∀ {j : ℕ} {l : Loop}, w'.loops[j]? = some l → l.pc ≠ .done → j = i := by
      intro j l hl hpc
      rw [hloops] at hl
      rcases Slots.getElem?_set_eq_some hl with ⟨rfl, -⟩ | ⟨-, hl⟩
      · rfl
      · exact h.alone hl hpc hloop hlive
    rw [hback hl hpc, hback hl' hpc']

/-- When the live resume is over, none is alive. -/
theorem noLoop_set (h : w.Tasks) {i : ℕ} {loop loop' : Loop} (hloop : w.loops[i]? = some loop)
    (hlive : loop.pc ≠ .done) (hdone : loop'.pc = .done) {v : World}
    (hv : v.loops = w.loops.set i loop') : v.NoLoop := by
  intro j l hl
  rw [hv] at hl
  rcases Slots.getElem?_set_eq_some hl with ⟨-, rfl⟩ | ⟨hji, hl⟩
  · exact hdone
  · by_contra hpc
    exact hji (h.alone hl hpc hloop hlive)

/-- No resume is alive unless one is in flight. -/
theorem noLoop (h : w.Tasks) (hresuming : w.resuming = false) : w.NoLoop := by
  intro i loop hl
  by_contra hpc
  exact absurd (h.live hl hpc) (by simp [hresuming])

/-- With no resume alive, the flag of a resume may change. -/
theorem setResuming (h : w.Tasks) (hno : w.NoLoop) (hw : w' = { w with
      resuming := w'.resuming, stalled := w'.stalled, suspended := w'.suspended
      linkDown := w'.linkDown, closeKind := w'.closeKind, closedByWire := w'.closedByWire }) :
    w'.Tasks := by
  have hloops : w'.loops = w.loops := by rw [hw]
  refine h.move (by rw [hw]) (by rw [hw]) (by rw [hw]) (by rw [hw]; exact .refl Reader.Stays.refl _)
    (by rw [hw]; exact .refl Writer.Stays.refl _) (by rw [hw]; exact .refl Conn.Kin.refl _)
    (fun hl hc => ?_) (fun hl hpc => ?_) fun hl hpc _ _ => ?_
  · rw [hloops] at hl
    exact h.held hl hc
  · rw [hloops] at hl
    exact absurd (hno _ _ hl) hpc
  · rw [hloops] at hl
    exact absurd (hno _ _ hl) hpc

/-- A resume starts, when none is alive. -/
theorem addLoop (h : w.Tasks) (hno : w.NoLoop) {loop : Loop} (hpc : loop.pc.conn = none)
    (hw : w' = { w with
      conns := w'.conns, resuming := true, stalled := w'.stalled, suspended := w'.suspended
      loops := w.loops ++ [loop] })
    (hconns : Slots.Related Conn.Kin w.conns w'.conns) : w'.Tasks := by
  have hloops : w'.loops = w.loops ++ [loop] := by rw [hw]
  have hlast : ∀ {j : ℕ} {l : Loop}, w'.loops[j]? = some l → l.pc ≠ .done →
      j = w.loops.length := by
    intro j l hl hpc
    rw [hloops] at hl
    rcases Slots.getElem?_concat_eq_some.1 hl with hl | ⟨hj, -⟩
    · exact absurd (hno _ _ hl) hpc
    · exact hj
  refine h.move (by rw [hw]) (by rw [hw]) (by rw [hw]) (by rw [hw]; exact .refl Reader.Stays.refl _)
    (by rw [hw]; exact .refl Writer.Stays.refl _) hconns (fun hl hc => ?_) (fun _ _ => by rw [hw])
    fun hl hpc hl' hpc' => ?_
  · rw [hloops] at hl
    rcases Slots.getElem?_concat_eq_some.1 hl with hl | ⟨-, rfl⟩
    · exact h.held hl hc
    · rw [hpc] at hc
      cases hc
  · rw [hlast hl hpc, hlast hl' hpc']

/-- A connection is dialed; it is not installed. -/
theorem addConn (h : w.Tasks) {conn : Conn} (hinst : conn.installed = none) :
    { w with conns := w.conns ++ [conn] }.Tasks := by
  have hold : ∀ {c : ℕ} {cn : Conn}, w.conns[c]? = some cn → (w.conns ++ [conn])[c]? = some cn :=
    fun hc => Slots.getElem?_concat_eq_some.2 (.inl hc)
  exact { h with
    current := by
      obtain ⟨cn, hc, hg⟩ := h.current
      exact ⟨cn, hold hc, hg⟩
    reader := fun hr => by
      obtain ⟨cn, hc, hg⟩ := h.reader hr
      exact ⟨cn, hold hc, hg⟩
    writer := fun ht => by
      obtain ⟨cn, hc, hg⟩ := h.writer ht
      exact ⟨cn, hold hc, hg⟩
    installed := fun hc hc' hg hg' => by
      rcases Slots.getElem?_concat_eq_some.1 hc with hc | ⟨-, rfl⟩
      · rcases Slots.getElem?_concat_eq_some.1 hc' with hc' | ⟨-, rfl⟩
        · exact h.installed hc hc' hg hg'
        · rw [hinst] at hg'
          cases hg'
      · rw [hinst] at hg
        cases hg
    installed_le := fun hc hg => by
      rcases Slots.getElem?_concat_eq_some.1 hc with hc | ⟨-, rfl⟩
      · exact h.installed_le hc hg
      · rw [hinst] at hg
        cases hg
    held := fun hl hc => by
      obtain ⟨cn, hcn, hnone⟩ := h.held hl hc
      exact ⟨cn, hold hcn, hnone⟩ }

/-- The tasks of a connection just adopted are spawned; no resume is alive. -/
theorem spawn (h : w.Tasks) (hno : w.NoLoop) {c : ℕ} {conn : Conn} (hc : w.conns[c]? = some conn)
    (hinst : conn.installed = none) {v : World} (hq : (w.adopt c).Quiet v) (dec tail : Bytes) :
    (v.spawnTasks c dec tail).Tasks := by
  have hgen : v.generation = w.generation + 1 := by rw [hq.only]; rfl
  have hconn : v.conn = c := by rw [hq.only]; rfl
  have hloops : v.loops = w.loops := by rw [hq.only]; rfl
  have hwriters : v.writers = w.writers := by rw [hq.only]; rfl
  have hlen : v.readers.length = w.generation + 1 :=
    hq.readers.length_eq.trans h.readers_length
  -- each connection is installed as before, but for this one
  have hback : ∀ {j : ℕ} {a' : Conn}, v.conns[j]? = some a' → ∃ a, w.conns[j]? = some a ∧
      a'.installed = if c = j then some (w.generation + 1) else a.installed := by
    intro j a' ha'
    obtain ⟨b, hb, hheard⟩ := hq.conns.slot ha'
    obtain ⟨a, ha, rfl⟩ := Slots.getElem?_modify_eq_some.1 hb
    exact ⟨a, ha, by rw [hheard.kin]; split_ifs <;> rfl⟩
  have hforth : ∀ {j : ℕ} {a : Conn}, w.conns[j]? = some a → ∃ a', v.conns[j]? = some a' ∧
      a'.installed = if c = j then some (w.generation + 1) else a.installed := by
    intro j a ha
    have hb : (w.adopt c).conns[j]? = some
        (if c = j then { a with installed := some (w.generation + 1) } else a) :=
      Slots.getElem?_modify_eq_some.2 ⟨a, ha, rfl⟩
    obtain ⟨a', ha', hheard⟩ := hq.conns.exists hb
    exact ⟨a', ha', by rw [hheard.kin]; split_ifs <;> rfl⟩
  have hnew : ∃ a', v.conns[c]? = some a' ∧ a'.installed = some (w.generation + 1) := by
    obtain ⟨a', ha', hg⟩ := hforth hc
    exact ⟨a', ha', by rw [hg, if_pos rfl]⟩
  have hold : ∀ {j g : ℕ} {a : Conn}, w.conns[j]? = some a → a.installed = some g →
      ∃ a', v.conns[j]? = some a' ∧ a'.installed = some g := by
    intro j g a ha hg
    have hcj : c ≠ j := by
      rintro rfl
      cases hc.symm.trans ha
      rw [hinst] at hg
      cases hg
    obtain ⟨a', ha', hg'⟩ := hforth ha
    exact ⟨a', ha', by rw [hg', if_neg hcj, hg]⟩
  have hdone : ∀ {j : ℕ} {l : Loop}, v.loops[j]? = some l → l.pc = .done := by
    intro j l hl
    rw [hloops] at hl
    exact hno j l hl
  exact {
    framed := by
      have hproto : v.proto = w.proto := by rw [hq.only]; rfl
      exact (congrArg Proto.framed hproto).trans h.framed
    readers_length := by
      simp only [spawnTasks, List.length_append, List.length_singleton, hlen, notify, hgen]
    writers_length := by
      simp only [spawnTasks, List.length_append, List.length_singleton, hwriters, notify, hgen,
        h.writers_length]
    current := by
      obtain ⟨a', ha', hg⟩ := hnew
      exact ⟨a', by simpa only [spawnTasks, notify, hconn] using ha', by
        simpa only [spawnTasks, notify, hgen] using hg⟩
    reader := fun hr => by
      rcases Slots.getElem?_concat_eq_some.1 hr with hr | ⟨hlast, rfl⟩
      · obtain ⟨r, hr, hstays⟩ := hq.readers.slot hr
        obtain ⟨a, ha, hg⟩ := h.reader hr
        rw [hstays]
        exact hold ha hg
      · rw [hlast, hlen]
        exact hnew
    writer := fun ht => by
      rcases Slots.getElem?_concat_eq_some.1 ht with ht | ⟨hlast, rfl⟩
      · rw [hwriters] at ht
        obtain ⟨a, ha, hg⟩ := h.writer ht
        exact hold ha hg
      · rw [hlast, hwriters, h.writers_length]
        exact hnew
    installed := fun hj hj' hg hg' => by
      obtain ⟨a, ha, hinst⟩ := hback hj
      obtain ⟨b, hb, hinst'⟩ := hback hj'
      rw [hinst] at hg
      rw [hinst'] at hg'
      split_ifs at hg hg' with hcj hcj' hcj'
      · exact hcj.symm.trans hcj'
      · have hle := h.installed_le hb hg'
        cases hg
        omega
      · have hle := h.installed_le ha hg
        cases hg'
        omega
      · exact h.installed ha hb hg hg'
    installed_le := fun hj hg => by
      obtain ⟨a, ha, hinst⟩ := hback hj
      rw [hinst] at hg
      simp only [spawnTasks, notify, hgen]
      split_ifs at hg
      · cases hg
        exact Nat.le_refl _
      · exact Nat.le_succ_of_le (h.installed_le ha hg)
    held := fun hl hheld => by
      rw [hdone hl] at hheld
      cases hheld
    live := fun hl hpc => absurd (hdone hl) hpc
    alone := fun hl hpc _ _ => absurd (hdone hl) hpc }

/-- A resume read its reply: it is over, and its connection is not installed yet. -/
theorem resumed (h : w.Tasks) {i : ℕ} {loop : Loop} (hloop : w.loops[i]? = some loop)
    (hlive : loop.pc ≠ .done) (c k p : ℕ) : ((w.takeInbox c k).resumed i loop c p).Tasks ∧
      ((w.takeInbox c k).resumed i loop c p).NoLoop := by
  have htake : Slots.Related Conn.Kin w.conns (w.takeInbox c k).conns :=
    Slots.related_modify Conn.Kin.refl fun _ _ => rfl
  have hkin : Slots.Related Conn.Kin w.conns ((w.takeInbox c k).resumed i loop c p).conns :=
    htake.trans Conn.Kin.trans (Slots.related_modify Conn.Kin.refl fun _ _ => rfl)
  exact ⟨h.setLoop hloop hlive rfl hkin (fun c' hc' => by cases hc'),
    h.noLoop_set hloop hlive rfl rfl⟩

/-- The connection on which it read the reply. -/
theorem getElem?_conns_resumed {i c k p : ℕ} {loop : Loop} {conn : Conn}
    (hc : w.conns[c]? = some conn) : ((w.takeInbox c k).resumed i loop c p).conns[c]? =
      some { conn with
        inbox := conn.inbox.drop k
        taken := conn.taken ++ conn.inbox.take k
        peerReceived := p } := by
  refine Slots.getElem?_modify_eq_some.2 ⟨_, Slots.getElem?_modify_eq_some.2 ⟨conn, hc, rfl⟩, ?_⟩
  rw [if_pos rfl, if_pos rfl]

/-! ### Steps -/

section Steps

variable [Postcard]

theorem writerStep (h : w.Tasks) {a : Action} {g : ℕ} {t : Writer} {n : Next}
    (hw : WriterStep w a g t w' n) : w'.Tasks ∧ n.Fits w' := by
  have hwriters : ∀ pc : WriterPc, Slots.Related Writer.Stays w.writers
      (w.writers.modify g fun t => { t with pc := pc }) := fun _ =>
    Slots.related_modify Writer.Stays.refl fun _ _ => rfl
  have hconns : ∀ fs : List Bytes, Slots.Related Conn.Kin w.conns
      (w.conns.modify t.conn fun conn => { conn with wire := conn.wire ++ fs }) := fun _ =>
    Slots.related_modify Conn.Kin.refl fun _ _ => rfl
  cases hw with
  | parked =>
    exact ⟨h.keep rfl rfl rfl (.refl Reader.Stays.refl _) (hwriters .parked)
      (.refl Conn.Kin.refl _) rfl rfl, trivial⟩
  | done n hn =>
    refine ⟨h.keep rfl rfl rfl (.refl Reader.Stays.refl _) (hwriters .done) (.refl Conn.Kin.refl _)
      rfl rfl, ?_⟩
    rcases hn with rfl | ⟨reason, rfl⟩ <;> trivial
  | pieces fs =>
    exact ⟨h.keep rfl rfl rfl (.refl Reader.Stays.refl _) (hwriters _) (hconns fs) rfl rfl, trivial⟩
  | round hcur hlive hpend hb =>
    obtain ⟨fs, pc, hws, hcs, -⟩ := hb.wire
    refine ⟨h.keep (by rw [hb.only]) (by rw [hb.only]) (by rw [hb.only])
      (by rw [hb.only]; exact .refl Reader.Stays.refl _) (by rw [hws]; exact hwriters pc)
      (by rw [hcs]; exact hconns fs) (by rw [hb.only]) (by rw [hb.only]), trivial⟩

theorem loopStep (h : w.Tasks) {a : Action} {i : ℕ} {loop : Loop} {n : Next}
    (hloop : w.loops[i]? = some loop) (hlive : loop.pc ≠ .done) (hl : LoopStep w a i loop w' n) : w'.Tasks ∧ n.Fits w' := by
  have hi : i < w.loops.length := (List.getElem?_eq_some_iff.1 hloop).1
  cases hl with
  | letGo c f n hw hc hf hread hgap hconns hpc hn hgen hover =>
    rename_i loop' conns
    have hkin : Slots.Related Conn.Kin w.conns conns := by
      refine Slots.Related.trans Conn.Kin.trans (Slots.related_modify Conn.Kin.refl fun a _ => ?_)
        ⟨hconns.length_eq, fun hb =>
          let ⟨a, ha, hsame⟩ := hconns.slot hb
          ⟨a, ha, hsame.heard.kin⟩⟩
      rw [Conn.Kin, hf a]
    refine ⟨h.setLoop hloop hlive (by rw [hw]; rfl) (by rw [hw]; exact hkin)
      fun c hc => by simp [hpc] at hc, ?_⟩
    rcases hn with rfl | ⟨rfl, htop⟩ | ⟨⟨reason, rfl⟩, hdone⟩
    · trivial
    · refine ⟨loop', ?_, by simp [htop]⟩
      rw [hw]
      exact List.getElem?_set_self hi
    · exact h.noLoop_set hloop hlive hdone (by rw [hw]; rfl)
  | dialed conn hw hconn hpc hgen hover =>
    have hinst : conn.installed = none := by rw [hconn]
    have hadd := h.addConn hinst
    refine ⟨hadd.setLoop hloop hlive (by rw [hw]; rfl)
      (by rw [hw]; exact .refl Conn.Kin.refl _) fun c hc => ?_, trivial⟩
    rcases hpc with hpc | hpc
    · simp [hpc] at hc
    · rw [hpc] at hc
      cases hc
      exact ⟨conn, List.getElem?_concat_length, hinst⟩
  | opened c hw hc hpc hgen =>
    refine ⟨h.setLoop hloop hlive (by rw [hw]; rfl)
      (by rw [hw]; exact Slots.related_modify Conn.Kin.refl fun _ _ => rfl) fun c' hc' => ?_, trivial⟩
    rw [hpc] at hc'
    cases hc'
    exact h.held hloop (by rw [hc]; rfl)
  | helloed c hw hc hpc hgen =>
    refine ⟨h.setLoop hloop hlive (by rw [hw]; rfl) (by rw [hw]; exact .refl Conn.Kin.refl _)
      fun c' hc' => ?_, trivial⟩
    rw [hpc] at hc'
    cases hc'
    exact h.held hloop (by rw [hc]; rfl)
  | more c k hw hc hshake hpc hgen =>
    refine ⟨h.setLoop hloop hlive (by rw [hw]; rfl)
      (by rw [hw]; exact Slots.related_modify Conn.Kin.refl fun _ _ => rfl) fun c' hc' => ?_, trivial⟩
    rw [hpc] at hc'
    cases hc'
    exact h.held hloop (by rw [hc]; rfl)
  | installed c k p hc hshake htail hlive' hact hinst =>
    refine ⟨?_, trivial⟩
    obtain ⟨conn, hconn, hnone⟩ := h.held hloop (by rw [hc]; rfl)
    obtain ⟨hover, hno⟩ := h.resumed hloop hlive c k p.toNat
    obtain ⟨v, hq, -, -, -, hdrove⟩ := install_cases hinst
    exact (hover.spawn hno (getElem?_conns_resumed hconn) hnone hq _ _).quiet hdrove.quiet

/-- What the piece of a step keeps. -/
theorem piece (h : w.Tasks) {l : Label} {n : Next} (hpiece : w.piece l = some (w', n)) :
    w'.Tasks ∧ n.Fits w' := by
  rcases piece_cases hpiece with ⟨-, hq, hn⟩ | ⟨g, t, ht, hw⟩ | ⟨i, loop, hloop, hlive, hl⟩ |
    ⟨-, rfl, rfl⟩
  · refine ⟨h.quiet hq, ?_⟩
    rcases hn with rfl | ⟨g, reason, rfl⟩ <;> trivial
  · exact h.writerStep hw
  · exact h.loopStep hloop hlive hl
  · refine ⟨?_, trivial⟩
    rcases w.wake_cases with hq | ⟨-, -, -, hresuming, heq⟩
    · exact h.quiet hq
    · rw [heq]
      exact h.addLoop (h.noLoop hresuming) rfl rfl (.refl Conn.Kin.refl _)

omit [Postcard] in
/-- The top of a resume keeps it, and a death is declared when no resume is alive. -/
theorem topStep (h : w.Tasks) {i : ℕ} {loop : Loop} (hloop : w.loops[i]? = some loop)
    (hlive : loop.pc ≠ .done) {r : Option String} (ht : w.TopStep i w' r) :
    w'.Tasks ∧ ∀ reason, r = some reason → w'.NoLoop := by
  cases ht with
  | gone hgone => exact ⟨h, nofun⟩
  | ended r hpc hold hgen hover =>
    exact ⟨h.setLoop hloop hlive rfl (.refl Conn.Kin.refl _) fun c hc => by simp [hpc, LoopPc.conn] at hc,
      fun _ _ => h.noLoop_set hloop hlive hpc rfl⟩
  | standDown hpc hold hgen hgoing haway =>
    rename_i loop'
    have hs : (w.setLoop i loop').Tasks :=
      h.setLoop hloop hlive rfl (.refl Conn.Kin.refl _) fun c hc => by simp [hpc, LoopPc.conn] at hc
    have hno : (w.setLoop i loop').NoLoop := h.noLoop_set hloop hlive hpc rfl
    exact ⟨hs.setResuming hno rfl, nofun⟩
  | dial hpc hold hgen hgoing =>
    exact ⟨h.setLoop hloop hlive rfl (.refl Conn.Kin.refl _) fun c hc => by simp [hpc, LoopPc.conn] at hc,
      nofun⟩

omit [Postcard] in
/-- What follows a piece keeps it. -/
theorem settle (h : w.Tasks) {n : Next} (hfits : n.Fits w) :
    (w.settle n).1.Tasks ∧ ∀ reason, (w.settle n).2 = some reason → (w.settle n).1.NoLoop := by
  rcases w.settle_cases n with ⟨heq, hn⟩ | ⟨heq, hresuming, hnone⟩ | ⟨i, rfl, ht⟩ |
    ⟨g, reason, rfl, hresume, ht⟩
  · rw [heq]
    refine ⟨h, fun reason hr => ?_⟩
    rcases hn with hnone | ⟨reason', rfl⟩ | hproto
    · rw [hnone] at hr
      cases hr
    · exact hfits
    · exact absurd h.framed (by simp [hproto, Proto.framed])
  · rw [heq, hnone]
    exact ⟨h.setResuming (h.noLoop hresuming) rfl, nofun⟩
  · obtain ⟨loop, hloop, hlive⟩ := hfits
    exact h.topStep hloop hlive ht
  · have hno : w.NoLoop := h.noLoop (resuming_of_linkNext hresume)
    have hstart : (w.startLoop g).Tasks :=
      h.addLoop hno rfl rfl
        (Slots.related_modify Conn.Kin.refl fun _ _ => rfl)
    exact hstart.topStep List.getElem?_concat_length (by simp) ht

/-- A step keeps the invariant. -/
theorem step (h : w.Tasks) {l : Label} (hstep : w.step l = some w') : w'.Tasks := by
  obtain ⟨v, n, hpiece, hsettle⟩ := step_cases hstep
  obtain ⟨hv, hfits⟩ := h.piece hpiece
  obtain ⟨hs, hno⟩ := hv.settle hfits
  rcases hsettle with ⟨-, rfl⟩ | ⟨reason, hreason, hdie⟩
  · exact hs
  · rcases declareDead_cases hdie with ⟨-, rfl⟩ | ⟨-, hq, -⟩
    · exact hs
    · exact (hs.setResuming (hno reason hreason) rfl).quiet hq

end Steps

/-- A session begins with one connection, one reader and one writer. -/
theorem fresh {d : Dial} (hframed : d.proto.framed = true) (id : SessionId) (dec hello : Bytes)
    (pc : ReaderPc) : (World.fresh d id dec hello pc).Tasks := by
  exact {
    framed := hframed
    readers_length := rfl
    writers_length := rfl
    current := ⟨_, rfl, rfl⟩
    reader := fun hr => by
      obtain ⟨rfl, rfl⟩ := Slots.getElem?_singleton_eq_some hr
      exact ⟨_, rfl, rfl⟩
    writer := fun ht => by
      obtain ⟨rfl, rfl⟩ := Slots.getElem?_singleton_eq_some ht
      exact ⟨_, rfl, rfl⟩
    installed := fun hc hc' _ _ => (Slots.getElem?_singleton_eq_some hc).1.trans (Slots.getElem?_singleton_eq_some hc').1.symm
    installed_le := fun hc hg => by
      obtain ⟨-, rfl⟩ := Slots.getElem?_singleton_eq_some hc
      cases hg
      exact Nat.le_refl 0
    held := nofun
    live := nofun
    alone := nofun }

end Tasks

variable [Postcard]

theorem tasks_connect {d : Dial} (hframed : d.proto.framed = true) {moves : List SshCore.Action}
    (h : World.connect d moves = some w) : w.Tasks := by
  obtain ⟨id, dec, hello, pc, deferred, hbegin, -⟩ := connect_cases h
  exact (Tasks.fresh hframed id dec hello pc).quiet (quiet_begin hbegin)

/-- **The tasks of a session with frames**, in every state it reaches. -/
theorem tasks_run {d : Dial} (hframed : d.proto.framed = true) {moves : List SshCore.Action}
    {w₀ : World} (hconn : World.connect d moves = some w₀) {ls : List Label}
    (hrun : Run.run World.step w₀ ls = some w) : w.Tasks :=
  Run.run_inv_of_step (fun _ _ _ h hstep => h.step hstep) (tasks_connect hframed hconn) hrun

end World

end Client
