import DaemonProxy.Proofs.Descriptors

/-! # Descriptors over whole runs

Construction, destruction, and every function of the machine keep the descriptors of the controllers in order, as long
as no shared descriptor is closed on one side only. A controller between `ctl_alloc` and `ctl_ctor`, or between
`ctl_dtor` and `ctl_free`, has fields that mean nothing: there the order of the others is what is kept.
-/

namespace DaemonProxy.Proofs

open Lib Model

variable {n : ℕ}

/-! ## The life of a controller -/

section Life

variable {w w' : World n} {i : Fin n} {held : Fin n → List ℤ}

theorem OwnedBy.closeAll (owned : OwnedBy held w) (fds : List ℤ) (all : held i = fds) :
    OwnedBy (Function.update held i []) (fds.foldl (fun w fd => w.closeFd i fd) w) := by
  induction fds generalizing held w with
  | nil =>
    have same : Function.update held i [] = held := by rw [← all, Function.update_eq_self]
    rw [same]
    exact owned
  | cons fd rest ih =>
    have closed : OwnedBy (without held i fd) (w.closeFd i fd) := owned.close (by simp [all])
    have left : without held i fd i = rest := by simp [without, all]
    have done := ih closed left
    rwa [without, Function.update_idem] at done

/-- The descriptors are in order, except that controller `i` holds none, whatever its fields say. -/
structure Emptied (i : Fin n) (w : World n) : Prop where
  owned : OwnedBy (Function.update (handlesIn w) i []) w
  fields : ∀ j, j ≠ i → InOrder (w.client j)

theorem emptied_of_others (fields : ∀ j, j ≠ i → InOrder (w.client j)) (others : ∀ j, j ≠ i → w'.client j = w.client j)
    (table : OwnedBy (Function.update (handlesIn w) i []) w') : Emptied i w' := by
  have same : Function.update (handlesIn w') i [] = Function.update (handlesIn w) i [] := by
    funext j
    rcases eq_or_ne j i with rfl | other
    · rw [Function.update_self, Function.update_self]
    · rw [Function.update_of_ne other, Function.update_of_ne other, handlesIn, handlesIn, others j other]
  exact ⟨same ▸ table, fun j other => others j other ▸ fields j other⟩

theorem Owned.allocate (owned : Owned w) (free : (w.client i).stateFn = none) :
    Emptied i ((w.setClient i { stateFn := some .free }).setLog i {}) := by
  have nothing : handlesIn w i = [] := if_pos (.inl free)
  apply emptied_of_others fun j _ => owned.fields j
  · exact fun j other => Function.update_of_ne other ..
  · rw [← nothing, Function.update_eq_self]
    exact owned.owned.same rfl rfl

theorem Emptied.opened (emptied : Emptied i w) : Emptied i (w.openFd .other) := by
  have table : OwnedBy _ (w.openFd .other) := emptied.owned.elsewhere (holder_openFd w .other)
    (fun _ held => nomatch (lowestFree_free w).symm.trans held) nofun rfl
  exact emptied_of_others emptied.fields (fun _ _ => rfl) table

/-- A controller that is gone need not hold anything. -/
theorem Emptied.gone (emptied : Emptied i w) (gone : Gone (w.client i)) (here : InOrder (w.client i)) : Owned w := by
  have nothing : handlesIn w i = [] := if_pos gone
  apply owned_of_change emptied.fields (fun _ _ => rfl) emptied.owned here
  · simp [nothing]
  · simp [nothing]

theorem Emptied.free (emptied : Emptied i w) (range : -1 ≤ (w.client i).send.fd) :
    Owned (w.setClient i { w.client i with stateFn := none }) := by
  have freed : Emptied i (w.setClient i { w.client i with stateFn := none }) := by
    apply emptied_of_others emptied.fields
    · exact fun j other => Function.update_of_ne other ..
    · exact emptied.owned.same rfl rfl
  apply freed.gone
  · simp [Gone]
  · rw [setClient_client]
    exact ⟨range, by rintro ⟨⟩, by rintro ⟨⟩⟩

/-! ### Construction -/

/-- A descriptor of the daemon is given to a controller. -/
theorem OwnedBy.give (owned : OwnedBy held w) {fd : ℤ} (given : w.holder fd = some .other) (i : Fin n) :
    OwnedBy (Function.update held i (held i ++ [fd])) (w.setHolder fd (some (.controller i))) := by
  apply owned.acquire (holder_setHolder (by simp [given]) _) _ rfl
  intro j held
  exact nomatch given.symm.trans held

/-- A controller is given a descriptor that it holds. -/
theorem OwnedBy.giveAgain (owned : OwnedBy held w) {fd : ℤ} (mem : fd ∈ held i) :
    OwnedBy held (w.setHolder fd (some (.controller i))) := by
  have holds := (owned.holds fd i).mpr mem
  apply owned.pass (holder_setHolder (by simp [holds]) _) _ owned.once rfl
  intro j other
  split
  · rename_i same
    rw [← owned.holds, same, holds]
  · rfl

theorem given_used {fd : ℤ} (given : w.given fd) (used : fd ≠ -1) : 0 ≤ fd ∧ w.holder fd = some .other := by
  have held : w.holder fd = some .other := (decide_eq_true_eq.mp given).resolve_left used
  have opened : w.holder fd ≠ none := by simp [held]
  exact ⟨(holder_inside opened).1, held⟩

theorem given_range {fd : ℤ} (given : w.given fd) : -1 ≤ fd := by
  rcases eq_or_ne fd (-1) with rfl | used
  · exact le_rfl
  · have := (given_used given used).1
    omega

/-- The table after the descriptors of a new controller have been given to it. -/
theorem OwnedBy.construct (owned : OwnedBy (Function.update held i []) w) {recvFd sendFd : ℤ} (recv : w.given recvFd)
    (send : w.given sendFd) (ctl : Controller) (recvFd' : ctl.recv.fd = recvFd) (sendFd' : ctl.send.fd = sendFd)
    (queue : ctl.recv.ancillaryFd = []) :
    let w₁ := if recvFd ≠ -1 then w.setHolder recvFd (some (.controller i)) else w
    OwnedBy (Function.update held i (handles ctl))
      (if sendFd ≠ -1 then w₁.setHolder sendFd (some (.controller i)) else w₁) := by
  subst recvFd' sendFd'
  intro w₁
  have unused : ¬ (0 : ℤ) ≤ -1 := by decide
  have first : OwnedBy (Function.update held i (if 0 ≤ ctl.recv.fd then [ctl.recv.fd] else [])) w₁ := by
    by_cases used : ctl.recv.fd = -1
    · simpa [w₁, used] using owned
    · have given := given_used recv used
      simpa [w₁, used, given.1] using owned.give given.2 i
  by_cases used : ctl.send.fd = -1
  · simpa [used, handles, queue] using first
  have given := given_used send used
  rw [if_pos used]
  by_cases same : ctl.send.fd = ctl.recv.fd
  · have again : OwnedBy _ (w₁.setHolder ctl.send.fd (some (.controller i))) :=
      first.giveAgain (by simp [← same, given.1])
    simpa [handles, queue, same] using again
  · have holder : w₁.holder ctl.send.fd = some .other := by
      by_cases used : ctl.recv.fd = -1
      · simpa [w₁, used] using given.2
      · have opened : w.holder ctl.recv.fd ≠ none := by simp [(given_used recv used).2]
        simp [w₁, used, holder_setHolder opened, same, given.2]
    simpa [handles, queue, given.1, same] using first.give holder i

theorem ctlCtor_owned (emptied : Emptied i w) (fresh : ∃ stateFn, w.client i = { stateFn }) {recvFd sendFd : ℤ}
    (recv : w.given recvFd) (send : w.given sendFd) (isSocket nonblock : Bool) :
    Ends (ctlCtor i recvFd sendFd isSocket nonblock) w fun made w' => if made then
      Owned w' ∧ (w'.client i).stateFn = some .nextCommand ∧
        ∀ fd, fd ≠ recvFd → fd ≠ sendFd → w'.holder fd = w.holder fd
    else w' = w ∧ (recvFd ≠ -1 ∨ sendFd ≠ -1) ∧ nonblock = false := by
  obtain ⟨stateFn, fresh⟩ := fresh
  simp only [ctlCtor, ends_bind, ends_ite, ends_modify, ends_pure, fresh]
  split
  · rename_i refused
    exact ⟨trivial, refused⟩
  let ctl : Controller := {
    stateFn := some .nextCommand, recv := { fd := recvFd, isSocket := decide (recvFd ≠ -1) && isSocket }
    send := { fd := sendFd, timeoutReset := writeTimeout / 2, timeoutClose := writeTimeout } }
  have table := emptied.owned.construct recv send ctl rfl rfl rfl
  have holds : (handles ctl).Nodup := handles_nodup.mpr ⟨List.nodup_nil, by rintro _ ⟨⟩, by rintro _ ⟨⟩⟩
  have made : ∀ w' : World n, w'.client = (w.setClient i ctl).client →
      OwnedBy (Function.update (handlesIn w) i (handles ctl)) w' →
      (∀ fd, fd ≠ recvFd → fd ≠ sendFd → w'.holder fd = w.holder fd) → Owned w' ∧
        (w'.client i).stateFn = some .nextCommand ∧ ∀ fd, fd ≠ recvFd → fd ≠ sendFd → w'.holder fd = w.holder fd := by
    intro w' client table frame
    have here : w'.client i = ctl := by rw [client, setClient_client]
    have present : ¬ Gone (w'.client i) := by simp [here, ctl, Gone]
    have held : handlesIn w' i = handles ctl := by rw [handlesIn_of_present present, here]
    refine ⟨owned_of_change emptied.fields (fun j other => ?_) table ?_ (by simp [held]) (by rwa [held]), by rw [here], frame⟩
    · rw [client]
      exact Function.update_of_ne other ..
    · rw [here]
      exact ⟨given_range send, by rintro ⟨⟩, by rintro ⟨⟩⟩
  split_ifs with first second second
  · simp only [if_pos first, if_pos second] at table
    refine made _ rfl (table.same rfl rfl) fun fd apart other => ?_
    rw [holder_setHolder_of_ne (given_used send second).1 _ other,
      holder_setHolder_of_ne (given_used recv first).1 _ apart]
    rfl
  · simp only [if_pos first, if_neg second] at table
    refine made _ rfl (table.same rfl rfl) fun fd apart _ => ?_
    rw [holder_setHolder_of_ne (given_used recv first).1 _ apart]
    rfl
  · simp only [if_neg first, if_pos second] at table
    refine made _ rfl (table.same rfl rfl) fun fd _ other => ?_
    rw [holder_setHolder_of_ne (given_used send second).1 _ other]
    rfl
  · simp only [if_neg first, if_neg second] at table
    exact made _ rfl (table.same rfl rfl) fun _ _ _ => rfl

/-! ### Destruction -/

theorem ctlDtor_closes (i : Fin n) (w : World n) : Ends (ctlDtor i) w fun _ w' =>
    w' = ((handles (w.client i)).foldl (fun w fd => w.closeFd i fd) w).setState i .free := by
  simp only [ctlDtor, ends_bind, ends_get, ends_ite, ends_modify, handles, List.foldl_append]
  split_ifs
  · rfl
  · rfl
  · rfl
  · rfl

theorem ctlDtor_owned (owned : Owned w) (present : ¬ Gone (w.client i)) : Ends (ctlDtor i) w fun _ w' =>
    Emptied i w' ∧ w'.client i = { w.client i with stateFn := some .free } ∧
      ∀ fd holder, w'.holder fd = some holder → w.holder fd = some holder := by
  refine (ctlDtor_closes i w).mono fun _ w' result => ?_
  have client := (closeFds_client (i := i) (handles (w.client i)) w).1
  have table := owned.owned.closeAll (handles (w.client i)) (handlesIn_of_present present)
  subst result
  refine ⟨emptied_of_others (fun j _ => owned.fields j) (fun j other => ?_) (table.same rfl rfl), ?_⟩
  · rw [World.setState, World.setClient, client]
    exact Function.update_of_ne other ..
  · refine ⟨?_, fun fd holder => holder_closeFds⟩
    rw [World.setState, setClient_client, client]

theorem ctlDtor_ctlFree_owned (owned : Owned w) (present : ¬ Gone (w.client i)) :
    Ends (ctlDtor i) w fun _ w₁ => Ends (ctlFree i) w₁ fun _ w' =>
      Owned w' ∧ ∀ fd holder, w'.holder fd = some holder → w.holder fd = some holder := by
  refine (ctlDtor_owned owned present).mono fun _ w₁ ⟨emptied, client, closed⟩ => ?_
  rw [ctlFree, ends_modify]
  refine ⟨emptied.free ?_, closed⟩
  rw [client]
  exact (owned.fields i).range

end Life

/-! ## Reading and commands -/

section Commands

variable {w w' : World n} {i : Fin n}

theorem Shared.of_sends (sends : Sends w w') {j : Fin n} (shared : Shared (w'.client j)) : Shared (w.client j) := by
  refine sends.preserve (I := fun w' => Shared (w'.client j) → Shared (w.client j)) ?_ id shared
  exact fun _ _ _ back step shared => back (shared.of_sendStep step)

/-- What a `read` may return: the end of a shared input, or garbage instead of descriptors, is more than the code can
deal with. -/
def ReadsWell (ctl : Controller) (reply : ReadReply) (garbage : List ℤ) : Prop :=
  (Shared ctl → reply ≠ .eof ∧ reply ≠ .fatal) ∧
    (ctl.recv.isSocket = true → reply = .again ∨ reply = .fatal → garbage = [])

instance (ctl : Controller) (reply : ReadReply) (garbage : List ℤ) : Decidable (ReadsWell ctl reply garbage) :=
  inferInstanceAs (Decidable (_ ∧ _))

theorem closeInput_owned (owned : Owned w) (allocated : (w.client i).stateFn ≠ none) (used : 0 ≤ (w.client i).recv.fd)
    (apart : ¬ Shared (w.client i)) : Owned (closeInput i w) := by
  obtain ⟨state, here⟩ := Option.ne_none_iff_exists'.mp allocated
  have present : state ≠ .free := by
    rintro rfl
    exact owned.present allocated (.inl used) (.inr here)
  apply owned.closeRecv allocated used apart present
  · simp [closeInput, World.setRecv, World.setLog, World.setClient, ← here]
  · rfl
  · rfl

theorem ctlReadMore_owned (owned : Owned w) (allocated : (w.client i).stateFn ≠ none) {reply : ReadReply}
    {garbage : List ℤ} (reads : ReadsWell (w.client i) reply garbage) :
    Ends (ctlReadMore i reply garbage) w fun _ w' => Owned w' := by
  rw [ctlReadMore, ends_bind, ends_get, ends_ite, ends_pure]
  split
  · exact owned
  rename_i usable
  rw [ends_bind, ends_modify]
  have used : 0 ≤ (w.client i).recv.fd := by omega
  have mem := owned.recv_mem allocated used
  have called : Owned (w.record .read i (w.client i).recv.fd) :=
    owned.congr (fun _ => rfl) (fun _ => rfl) (fun _ => rfl) (fun _ => rfl) (owned.owned.call mem .read)
  have present : ¬ Gone ((w.record .read i (w.client i).recv.fd).client i) := owned.present allocated (.inl used)
  rw [if_neg (owned.owned.opened mem)]
  obtain ⟨lasting, clean⟩ := reads
  cases reply with
  | data first rest passed =>
    simp only [ends_bind, ends_ite, ends_modify, ends_pure]
    have read : ∀ w₁ : World n, Owned w₁ → ∀ bytes : Bytes, Owned ((w₁.setRecv i { (w₁.client i).recv with
        buf := (w₁.client i).recv.buf ++ bytes }).setLog i
        { w₁.log i with stream := (w₁.log i).stream ++ bytes }) := by
      intro w₁ owned bytes
      apply owned.setRecv <;> rfl
    split_ifs
    · exact read _ (called.passFds present passed) _
    · exact read _ called _
  | eof =>
    simp only [ends_bind, ends_modify, ends_pure]
    exact closeInput_owned called allocated used fun shared => (lasting shared).1 rfl
  | again =>
    simp only [ends_bind, ends_ite, ends_modify, ends_pure]
    split_ifs with socket
    · rw [clean socket (.inl rfl)]
      exact called
    · exact called
  | fatal =>
    simp only [ends_bind, ends_ite, ends_modify, ends_pure]
    have closed := closeInput_owned called allocated used fun shared => (lasting shared).2 rfl
    split_ifs with socket
    · rw [clean socket (.inr rfl)]
      exact closed
    · exact closed

theorem Calm.congr (calm : Calm w) (recv : ∀ j, (w'.client j).recv.fd = (w.client j).recv.fd)
    (send : ∀ j, (w'.client j).send.fd = (w.client j).send.fd) (replies : w'.replies = w.replies) : Calm w' := by
  intro j shared
  rw [replies]
  rw [Shared, recv, send] at shared
  exact calm j shared

theorem Calm.setClient (calm : Calm w) {ctl : Controller} (client : w'.client = (w.setClient i ctl).client)
    (recv : ctl.recv.fd = (w.client i).recv.fd) (send : ctl.send.fd = (w.client i).send.fd)
    (replies : w'.replies = w.replies) : Calm w' := by
  apply calm.congr _ _ replies
  all_goals
    intro j
    rw [client, World.setClient]
    rcases eq_or_ne j i with rfl | other
    · simp [recv, send]
    · simp [other]

theorem ctlCmdExit_owned (owned : Owned w) (present : ¬ Gone (w.client i)) (apart : ¬ Shared (w.client i)) :
    Ends (ctlCmdExit i) w fun error w' => error = none ∧ Owned w' := by
  have allocated : (w.client i).stateFn ≠ none := fun none => present (.inl none)
  simp only [ctlCmdExit, ends_bind, ends_get, ends_ite, ends_modify, ends_pure]
  split
  · rename_i used
    refine ⟨trivial, owned.closeRecv allocated used apart (show CtlState.close ≠ .free from by rintro ⟨⟩) ?_ rfl rfl⟩
    simp [World.setRecv, World.setState, World.setClient]
  · rename_i unused
    refine ⟨trivial, ?_⟩
    have client : ((w.setRecv i { (w.client i).recv with fd := -1 }).setState i .close).client = (w.setClient i
        { w.client i with stateFn := some .close, recv := { (w.client i).recv with fd := -1 } }).client := by
      simp [World.setRecv, World.setState, World.setClient]
    apply owned.setClient client _ _ _ rfl rfl
    · have closed : ¬ (0 : ℤ) ≤ -1 := by decide
      simp only [handles, if_neg unused, if_neg closed]
      congr 2
      apply if_congr _ rfl rfl
      omega
    · simp [Gone] at present
      simp [Gone, present]
    · exact ⟨(owned.fields i).range, fun _ => Int.negSucc_lt_zero 0, by rintro ⟨⟩⟩

theorem takeQueuedFd_safe (safe : Safe w) (present : ¬ Gone (w.client i)) (input : CallInput) :
    Ends (takeQueuedFd i input) w fun _ w' => Safe w' := by
  simp only [takeQueuedFd, ends_bind, ends_get]
  cases queue : (w.client i).recv.ancillaryFd with
  | nil => exact (ends_pure _).mpr safe
  | cons fd rest =>
    simp only [ends_bind, ends_modify]
    have mem : fd ∈ handlesIn w i := by
      rw [handlesIn_of_present present, mem_handles, queue]
      exact .inr (.inr List.mem_cons_self)
    have taken : ∀ w' : World n, w'.client = (w.setRecv i { (w.client i).recv with ancillaryFd := rest }).client →
        w'.replies = w.replies → OwnedBy (without (handlesIn w) i fd) w' → Safe w' := by
      intro w' client replies table
      exact ⟨safe.1.takeFirst present queue client table, safe.2.setClient client rfl rfl replies⟩
    cases input.error with
    | some error =>
      simp only [ends_bind, ends_modify, ends_pure]
      apply taken
      · rw [closeFd_client]
      · rw [closeFd_replies]
        rfl
      · exact OwnedBy.close (safe.1.owned.same rfl rfl) mem
    | none =>
      simp only [ends_bind, ends_modify, ends_pure]
      refine (writeList_spec i input.writes _).mono fun _ w' sends => sends.safe ?_
      apply taken
      · rfl
      · rfl
      · apply OwnedBy.release _ mem
        · exact fun _ => by rintro ⟨⟩
        · exact safe.1.owned.same rfl rfl

/-- A controller that is present goes on in another state, or with another input buffer. -/
theorem Safe.setState (safe : Safe w) (present : ¬ Gone (w.client i)) {state : CtlState} {recv : RecvSide}
    (client : w'.client = (w.setClient i { w.client i with stateFn := some state, recv }).client)
    (fd : recv.fd = (w.client i).recv.fd) (queue : recv.ancillaryFd = (w.client i).recv.ancillaryFd)
    (stays : state ≠ .free) (closing : state = .close → recv.fd < 0) (fds : w'.fds = w.fds) (sys : w'.sys = w.sys)
    (replies : w'.replies = w.replies) : Safe w' :=
  ⟨safe.1.setState present client fd queue stays closing fds sys, safe.2.setClient client fd rfl replies⟩

theorem Safe.setRecv (safe : Safe w) {recv : RecvSide} (client : w'.client = (w.setRecv i recv).client)
    (fd : recv.fd = (w.client i).recv.fd) (queue : recv.ancillaryFd = (w.client i).recv.ancillaryFd)
    (fds : w'.fds = w.fds) (sys : w'.sys = w.sys) (replies : w'.replies = w.replies) : Safe w' :=
  ⟨safe.1.setRecv client fd queue fds sys, safe.2.setClient client fd rfl replies⟩

theorem Safe.setSend (safe : Safe w) {send : SendSide} (client : w'.client = (w.setSend i send).client)
    (fd : send.fd = (w.client i).send.fd) (table : OwnedBy (handlesIn w) w') (replies : w'.replies = w.replies) :
    Safe w' :=
  ⟨safe.1.setSend client fd table, safe.2.setClient client rfl fd replies⟩

theorem runHandler_safe (safe : Safe w) (present : ¬ Gone (w.client i)) {command : Command}
    (apart : command = .exit → ¬ Shared (w.client i)) (rest : StrSeg) (input : CallInput) :
    Ends (runHandler i command rest input) w fun error w' => Owned w' ∧ (error ≠ none → Safe w') := by
  have both : ∀ {error : Option Bytes} {w' : World n}, Safe w' → Owned w' ∧ (error ≠ none → Safe w') :=
    fun safe => ⟨safe.1, fun _ => safe⟩
  cases command with
  | echo => exact (ctlCmdEcho_spec i rest w).mono fun _ _ sends => both (sends.safe safe)
  | exit =>
    refine (ctlCmdExit_owned safe.1 present (apart rfl)).mono fun error w' result => ?_
    obtain ⟨success, owned⟩ := result
    exact ⟨owned, fun failed => absurd success failed⟩
  | statedump =>
    simp only [runHandler, ctlCmdStatedump, ends_bind, ends_modify, ends_pure]
    exact both (safe.setState present rfl rfl rfl (by rintro ⟨⟩) (by rintro ⟨⟩) rfl rfl rfl)
  | eventTimeout =>
    refine (ctlCmdEventPipeTimeout_spec i rest w).mono fun _ w' result => both ?_
    rcases result with rfl | ⟨reset, close, rfl⟩
    · exact safe
    · exact safe.setSend rfl rfl (safe.1.owned.same rfl rfl) rfl
  | fdTake => exact (takeQueuedFd_safe safe present input).mono fun _ _ => both
  | other =>
    simp only [runHandler, ends_bind, ends_pure]
    exact (writeList_spec i input.writes w).mono fun _ _ sends => both (sends.safe safe)

end Commands

/-! ## State functions -/

section States

variable {w w' : World n} {i : Fin n}

/-- The line that the controller is about to dispatch. -/
def parkedLine (ctl : Controller) : Bytes := ctl.recv.buf.take (ctl.recv.lineLen - 1)

theorem dispatchLine_owned (safe : Safe w) (present : ¬ Gone (w.client i))
    (apart : Exits (parkedLine (w.client i)) → ¬ Shared (w.client i)) (input : CallInput) :
    Ends (dispatchLine i input) w fun _ w' => Owned w' := by
  simp only [dispatchLine, ends_bind, ends_get, ends_modify]
  rw [parkedLine] at apart
  generalize (w.client i).recv.buf.take ((w.client i).recv.lineLen - 1) = text at apart ⊢
  set w₁ : World n := w.setLog i { w.log i with items := (w.log i).items ++ [.line text] }
  have logged : Safe w₁ := ⟨safe.1.congr (fun _ => rfl) (fun _ => rfl) (fun _ => rfl) (fun _ => rfl)
    (safe.1.owned.same rfl rfl), safe.2.congr (fun _ => rfl) (fun _ => rfl) rfl⟩
  change Ends _ w₁ _
  cases found : ctlFindCommand (splitAtSep 9 text).1 with
  | none =>
    simp only [ends_ite, ends_pure]
    split
    · exact logged.1
    split
    · exact logged.1
    · exact (ctlNotifyError_spec i _ w₁).mono fun _ _ sends => (sends.safe logged).1
  | some command =>
    simp only [ends_bind]
    refine (runHandler_safe logged present (fun exits => apart (found.trans (by rw [exits]))) _ input).mono
      fun error w₂ result => ?_
    obtain ⟨owned, safe⟩ := result
    cases error with
    | none => exact (ends_pure _).mpr owned
    | some error => exact (ctlNotifyError_spec i _ w₂).mono fun _ _ sends => (sends.safe (safe (by rintro ⟨⟩))).1

theorem ctlStateRunCommand_owned (safe : Safe w) (present : ¬ Gone (w.client i))
    (apart : (w.client i).recv.overflow = false → Exits (parkedLine (w.client i)) → ¬ Shared (w.client i))
    (input : CallInput) : Ends (ctlStateRunCommand i input) w fun _ w' => Owned w' := by
  rw [ctlStateRunCommand, ends_bind]
  refine (ctlOutBufReady_spec fun none => present (.inl none)).mono fun ready w₁ waited => ?_
  have sends := waited.1.sends
  have same := sends.sameInput i
  have waited := sends.safe safe
  have present₁ : ¬ Gone (w₁.client i) := by rwa [Gone, same.stateFn]
  have begun : Safe (w₁.setState i .endCommand) := waited.setState present₁ rfl rfl rfl (by rintro ⟨⟩) (by rintro ⟨⟩) rfl rfl rfl
  have client : (w₁.setState i .endCommand).client i = { w₁.client i with stateFn := some .endCommand } := by
    simp [World.setState]
  have present₂ : ¬ Gone ((w₁.setState i .endCommand).client i) := by simp [client, Gone]
  simp only [ends_ite, ends_bind, ends_modify, ends_get, ends_pure]
  split
  swap
  · exact waited.1
  split
  · -- the line was too long
    have reported : Safe ((w₁.setState i .endCommand).setRecv i
        { ((w₁.setState i .endCommand).client i).recv with overflow := false }) := by
      apply begun.setRecv <;> rfl
    split
    · refine (ctlNotifyError_spec i _ _).mono fun _ _ sends => (sends.safe ?_).1
      exact ⟨reported.1.congr (fun _ => rfl) (fun _ => rfl) (fun _ => rfl) (fun _ => rfl) (reported.1.owned.same rfl rfl),
        reported.2.congr (fun _ => rfl) (fun _ => rfl) rfl⟩
    · exact reported.1
  · rename_i whole
    apply dispatchLine_owned begun present₂
    simp only [client, parkedLine, same.recv] at whole ⊢
    exact fun exits shared => apart (by simpa using whole) exits (Shared.of_sends sends (by simpa [Shared, same.recv] using shared))

theorem setRecv_setState (w : World n) (i : Fin n) (recv : RecvSide) (state : CtlState) :
    (w.setRecv i recv).setState i state = w.setClient i { w.client i with stateFn := some state, recv } := by
  simp [World.setRecv, World.setState]

theorem ctlStateNextCommand_owned (safe : Safe w) (present : ¬ Gone (w.client i)) (input : CallInput) :
    Ends (ctlStateNextCommand i input) w fun _ w' => Owned w' := by
  rw [ctlStateNextCommand, ends_bind]
  refine (emitLines_spec (fun none => present (.inl none)) input.lines).mono fun done w₁ sends => ?_
  have present : ¬ Gone (w₁.client i) := by rwa [Gone, (sends.sameInput i).stateFn]
  have owned := (sends.safe safe).1
  have park : ∀ buf eol, Owned (w₁.parkLine i buf eol) := by
    intro buf eol
    rw [World.parkLine, setRecv_setState]
    exact owned.setState present rfl rfl rfl (by rintro ⟨⟩) (by rintro ⟨⟩) rfl rfl
  rw [ends_ite]
  split
  swap
  · exact (ends_pure _).mpr owned
  rw [ends_bind, ends_get, ends_ite]
  split
  · cases (w₁.client i).recv.buf.findIdx? (· = 10) with
    | some eol =>
      simp only [ends_bind, ends_modify, ends_pure]
      exact park _ eol
    | none =>
      simp only [ends_ite, ends_bind, ends_modify, ends_pure]
      split
      · apply owned.setRecv <;> rfl
      · exact owned
  rename_i gone
  have gone : (w₁.client i).recv.fd < 0 := by omega
  simp only [ends_ite, ends_bind, ends_modify, ends_pure]
  split
  · exact owned.setState present rfl rfl rfl (by rintro ⟨⟩) (fun _ => gone) rfl rfl
  split
  · exact park _ _
  cases (w₁.client i).recv.buf.findIdx? (· = 10) with
  | some eol =>
    simp only [ends_bind, ends_modify, ends_pure]
    exact park _ eol
  | none =>
    simp only [ends_bind, ends_modify, ends_pure, setRecv_setState]
    exact owned.setState present rfl rfl rfl (by rintro ⟨⟩) (fun _ => gone) rfl rfl

theorem ctlStateDump_owned (safe : Safe w) (present : ¬ Gone (w.client i)) {source following : CtlState}
    (move : DumpMove source following) (input : CallInput) :
    Ends (ctlStateDump i following input) w fun _ w' => Owned w' := by
  rw [ctlStateDump, ends_bind]
  refine (emitLines_spec (fun none => present (.inl none)) input.lines).mono fun done w₁ sends => ?_
  have present : ¬ Gone (w₁.client i) := by rwa [Gone, (sends.sameInput i).stateFn]
  have owned := (sends.safe safe).1
  simp only [ends_ite, ends_bind, ends_modify, ends_pure]
  split
  · cases move <;> exact owned.setState present rfl rfl rfl (by rintro ⟨⟩) (by rintro ⟨⟩) rfl rfl
  · exact owned

/-- What is left to do after a call of a state function: a controller that has just been destroyed has to be freed. -/
def Finished (i : Fin n) (again : Bool) (w : World n) : Prop :=
  Owned w ∨ again = true ∧ (w.client i).stateFn = some .free ∧ Emptied i w ∧ -1 ≤ (w.client i).send.fd

theorem ctlDtor_finished (owned : Owned w) (closing : (w.client i).stateFn = some .close) :
    Ends (ctlDtor i) w fun _ w' => Finished i true w' ∧ ((w.client i).send.fd < 0 → Owned w') := by
  have present : ¬ Gone (w.client i) := by simp [Gone, closing]
  have fields := owned.fields i
  refine (ctlDtor_owned owned present).mono fun _ w' result => ?_
  obtain ⟨emptied, client, _⟩ := result
  refine ⟨.inr ⟨rfl, by rw [client], emptied, by rw [client]; exact fields.range⟩, fun gone => ?_⟩
  apply emptied.gone
  · rw [client]
    exact .inr rfl
  · rw [client]
    exact ⟨fields.range, by rintro ⟨⟩, fun _ => ⟨fields.closing closing, gone⟩⟩

theorem ctlStateClose_finished (safe : Safe w) (closing : (w.client i).stateFn = some .close) :
    Ends (ctlStateClose i) w fun again w' => Finished i again w' ∧ ((w.client i).send.fd < 0 → Owned w') := by
  simp only [ctlStateClose, ends_bind, ends_get, ends_ite, ends_pure]
  split
  · rename_i used
    refine (ctlFlushOutbuf_spec (by simp [closing])).mono fun done w₁ flushed => ?_
    have sends := flushed.steps.sends
    have owned := (sends.safe safe).1
    split
    · refine (ctlDtor_finished owned ((sends.sameInput i).stateFn.trans closing)).mono fun _ _ finished => ?_
      exact ⟨finished.1, fun unused => absurd unused (by omega)⟩
    · exact ⟨.inl owned, fun _ => owned⟩
  · exact ctlDtor_finished safe.1 closing

theorem Owned.free (owned : Owned w) (destroyed : (w.client i).stateFn = some .free) :
    Owned (w.setClient i { w.client i with stateFn := none }) := by
  apply owned.setClient
  · rfl
  · rfl
  · simp [Gone, destroyed]
  · exact ⟨(owned.fields i).range, by rintro ⟨⟩, by rintro ⟨⟩⟩
  · rfl
  · rfl

/-- A call of the state function is one the code can deal with: `exit` is not for a shared descriptor, and the last of
the ten rounds does not destroy a controller that can still write. -/
def EndsWell (ctl : Controller) (last : Bool) : Prop :=
  (ctl.stateFn = some .runCommand → ctl.recv.overflow = false → Exits (parkedLine ctl) → ¬ Shared ctl) ∧
    (last = true → ctl.stateFn = some .close → ctl.send.fd < 0)

instance (ctl : Controller) (last : Bool) : Decidable (EndsWell ctl last) := inferInstanceAs (Decidable (_ ∧ _))

theorem callState_finished (safe : Safe w) {state : CtlState} (here : (w.client i).stateFn = some state) {last : Bool}
    (well : EndsWell (w.client i) last) (input : CallInput) :
    Ends (callState i state input) w fun again w' => Finished i again w' ∧ (last = true → Owned w') := by
  have both : ∀ {again : Bool} {w' : World n}, Owned w' → Finished i again w' ∧ (last = true → Owned w') :=
    fun owned => ⟨.inl owned, fun _ => owned⟩
  have present : state ≠ .free → ¬ Gone (w.client i) := by
    intro stays
    simp [Gone, here, stays]
  cases state with
  | nextCommand => exact (ctlStateNextCommand_owned safe (present (by rintro ⟨⟩)) input).mono fun _ _ => both
  | runCommand =>
    exact (ctlStateRunCommand_owned safe (present (by rintro ⟨⟩)) (well.1 here) input).mono fun _ _ => both
  | endCommand =>
    simp only [callState, ctlStateEndCommand, ends_bind, ends_modify, ends_pure, setRecv_setState]
    exact both (safe.1.setState (present (by rintro ⟨⟩)) rfl rfl rfl (by rintro ⟨⟩) (by rintro ⟨⟩) rfl rfl)
  | close =>
    refine (ctlStateClose_finished safe here).mono fun again w' finished => ?_
    exact ⟨finished.1, fun last => finished.2 (well.2 last here)⟩
  | free =>
    simp only [callState, ctlStateFree, ctlFree, ends_bind, ends_modify, ends_pure]
    exact both (safe.1.free here)
  | dumpFds => exact (ctlStateDump_owned safe (present (by rintro ⟨⟩)) .fds input).mono fun _ _ => both
  | dumpServices => exact (ctlStateDump_owned safe (present (by rintro ⟨⟩)) .services input).mono fun _ _ => both
  | dumpSignals => exact (ctlStateDump_owned safe (present (by rintro ⟨⟩)) .signals input).mono fun _ _ => both

theorem iterate_owned (safe : Safe w) {last : Bool} (well : EndsWell (w.client i) last) (input : CallInput) :
    Ends (iterate i input last) w fun _ w' => Owned w' := by
  simp only [iterate, ends_bind, ends_get]
  cases here : (w.client i).stateFn with
  | none => exact (ends_pure _).mpr safe.1
  | some state =>
    simp only [ends_bind, ends_get, ends_ite, ends_pure, ctlStateFree, ctlFree, ends_modify]
    refine (callState_finished safe here well input).mono fun again w₁ result => ?_
    obtain ⟨finished, lasts⟩ := result
    split
    · rename_i freed
      simp only [Bool.and_eq_true, decide_eq_true_eq] at freed
      rcases finished with owned | ⟨-, -, emptied, range⟩
      · exact owned.free freed.2
      · exact emptied.free range
    · rename_i kept
      rcases finished with owned | ⟨again, destroyed, -⟩
      · exact owned
      · apply lasts
        simpa [again, destroyed] using kept

end States

/-! ## The machine -/

section Machine

variable {w w' : World n} {i : Fin n}

theorem checkTimeout_owned (owned : Owned w) (present : ¬ Gone (w.client i)) :
    Ends (checkTimeout i) w fun _ w' => Owned w' := by
  simp only [checkTimeout, ends_bind, ends_get, ends_ite, ends_modify, ends_pure]
  split
  · exact (ctlDtor_ctlFree_owned owned present).mono fun _ _ freed => freed.mono fun _ _ => And.left
  split
  · exact owned.setSend rfl rfl (owned.owned.same rfl rfl)
  · exact owned.aside rfl rfl rfl

theorem outputPhase_owned (safe : Safe w) : Ends (outputPhase i) w fun _ w' => Owned w' := by
  simp only [outputPhase, ends_bind, ends_get, ends_ite, ends_modify, ends_pure, if_true]
  split
  swap
  · exact safe.1
  rename_i allocated
  rw [Option.isSome_iff_ne_none] at allocated
  split
  · rename_i used
    refine (ctlFlushOutbuf_spec allocated).mono fun done w₁ flushed => ?_
    have sends := flushed.steps.sends
    have owned := (sends.safe safe).1
    have present : ¬ Gone (w₁.client i) := by
      rw [Gone, (sends.sameInput i).stateFn]
      exact safe.1.present allocated (.inr used.1)
    split
    · refine (checkTimeout_owned owned present).mono fun allocated w₂ owned => ?_
      split_ifs
      · exact owned.aside rfl rfl rfl
      · exact owned
      · exact owned
    · split_ifs
      · exact owned.aside rfl rfl rfl
      · exact owned.aside rfl rfl rfl
      · exact owned.aside rfl rfl rfl
      · exact owned
  · split_ifs
    · exact safe.1.aside rfl rfl rfl
    · exact safe.1

theorem ctlNew_owned (owned : Owned w) {recvFd sendFd : ℤ} (recv : w.given recvFd) (send : w.given sendFd)
    (isSocket nonblock append : Bool) :
    Ends (ctlNew recvFd sendFd isSocket nonblock append) w fun _ w' => Owned w' := by
  rw [ctlNew, ends_bind]
  refine (ctlAlloc_spec w).mono fun found w₁ result => ?_
  cases found with
  | none =>
    obtain ⟨rfl, -⟩ := result
    exact (ends_pure _).mpr owned
  | some i =>
    obtain ⟨free, rfl⟩ := result
    have emptied := owned.allocate free
    obtain ⟨fresh, -⟩ := allocated_fresh w i
    simp only [ends_bind, ends_ite, ends_modify, ends_pure]
    refine (ctlCtor_owned emptied fresh recv send isSocket nonblock).mono fun made w₂ built => ?_
    cases made with
    | true =>
      obtain ⟨owned, -⟩ := built
      apply owned.setRecv <;> rfl
    | false =>
      obtain ⟨rfl, -⟩ := built
      simp only [Bool.false_eq_true, if_false, ctlStateFree, ctlFree, ends_bind, ends_modify, ends_pure]
      exact emptied.free (by simp)

/-- A descriptor that no controller holds is closed. -/
theorem Owned.drop (owned : Owned w) {fd : ℕ} (unheld : ∀ j, w.holder fd ≠ some (.controller j)) :
    Owned (w.setHolder fd none) :=
  owned.congr (fun _ => rfl) (fun _ => rfl) (fun _ => rfl) (fun _ => rfl)
    (owned.owned.elsewhere (holder_setHolder_none w fd) unheld nofun rfl)

theorem openFd_given (w : World n) : (w.openFd .other).given w.lowestFree := by
  simp [World.given, holder_openFd]

theorem svcControlSocket_owned (owned : Owned w) (wantRead wantWrite fork : Bool)
    (free : ∃ i, (w.client i).stateFn = none) :
    Ends (svcControlSocket wantRead wantWrite true true fork) w fun _ w' => Owned w' := by
  rw [svcControlSocket, ends_bind]
  refine (ctlAlloc_spec w).mono fun found w₁ result => ?_
  cases found with
  | none =>
    obtain ⟨i, free⟩ := free
    exact absurd free (result.2 i)
  | some i =>
    obtain ⟨free, rfl⟩ := result
    have emptied := (owned.allocate free).opened.opened
    obtain ⟨fresh, -⟩ := allocated_fresh w i
    set w₁ : World n := (w.setClient i { stateFn := some .free }).setLog i {}
    simp only [ends_bind, ends_get, ends_ite, ends_modify, if_true]
    set w₂ : World n := w₁.openFd .other
    have opened : w₂.holder w₁.lowestFree = some .other := by rw [holder_openFd, if_pos rfl]
    have ours : ∀ b : Bool, (w₂.openFd .other).given (if b then (w₁.lowestFree : ℤ) else -1) := by
      intro b
      cases b with
      | true => simp [World.given, holder_openFd, opened]
      | false => simp [World.given]
    have apart : ∀ b : Bool, (w₂.lowestFree : ℤ) ≠ if b then (w₁.lowestFree : ℤ) else -1 := by
      intro b same
      cases b with
      | true =>
        rw [if_pos rfl] at same
        rw [← same, lowestFree_free] at opened
        cases opened
      | false => simp at same
    have theirs : ∀ j, (w₂.openFd .other).holder w₂.lowestFree ≠ some (.controller j) := by
      intro j
      rw [holder_openFd, if_pos rfl]
      rintro ⟨⟩
    refine (ctlCtor_owned emptied fresh (ours wantWrite) (ours wantRead) true true).mono fun made w₃ built => ?_
    cases made with
    | false => cases built.2.2
    | true =>
      obtain ⟨owned, started, frame⟩ := built
      have kept := frame w₂.lowestFree (apart wantWrite) (apart wantRead)
      split
      · have present : ¬ Gone (w₃.client i) := by simp [Gone, started]
        refine (ctlDtor_ctlFree_owned owned present).mono fun _ w₄ freed => freed.mono fun _ w₅ result => ?_
        obtain ⟨owned, closed⟩ := result
        exact owned.drop fun j held => theirs j (kept ▸ closed _ _ held)
      · exact owned.drop fun j held => theirs j (kept ▸ held)

theorem controlSocketRun_owned (owned : Owned w) {accepts nonblock : Bool} (made : accepts = true → nonblock = true) :
    Ends (controlSocketRun accepts nonblock) w fun _ w' => Owned w' := by
  rw [controlSocketRun, ends_bind]
  refine (ctlAlloc_spec w).mono fun found w₁ result => ?_
  cases found with
  | none =>
    obtain ⟨rfl, -⟩ := result
    exact (ends_pure _).mpr owned
  | some i =>
    obtain ⟨free, rfl⟩ := result
    have emptied := owned.allocate free
    obtain ⟨fresh, -⟩ := allocated_fresh w i
    set w₁ : World n := (w.setClient i { stateFn := some .free }).setLog i {}
    simp only [ends_bind, ends_get, ends_ite, ends_modify, ends_pure]
    split
    · rename_i accepted
      have given := openFd_given w₁
      refine (ctlCtor_owned emptied.opened fresh given given true nonblock).mono fun built w₂ result => ?_
      cases built with
      | true => exact result.1
      | false => cases (made accepted).symm.trans result.2.2
    · -- the controller is freed and constructed all the same
      simp only [ctlFree, ends_modify]
      have freed : Emptied i (w₁.setClient i { w₁.client i with stateFn := none }) := by
        apply emptied_of_others emptied.fields
        · exact fun j other => Function.update_of_ne other ..
        · exact emptied.owned.same rfl rfl
      have fresh : ∃ stateFn, (w₁.setClient i { w₁.client i with stateFn := none }).client i = { stateFn } :=
        ⟨none, by simp [w₁]⟩
      have unused : ∀ w : World n, w.given (-1) := fun w => by simp [World.given]
      refine (ctlCtor_owned freed fresh (unused _) (unused _) true nonblock).mono fun built w₂ result => ?_
      cases built with
      | true => exact result.1
      | false => simp at result

/-! ### Whole runs -/

/-- The event is one that the code can deal with. -/
def Manageable (w : World n) : CtlEvent n → Prop
  | .service _ _ socketpair nonblock _ => socketpair = true ∧ nonblock = true
  | .accept accepts nonblock => accepts = true → nonblock = true
  | .read i reply garbage => ReadsWell (w.client i) reply garbage
  | .notify _ replies | .flush _ replies | .output _ replies => Calm { w with replies }
  | .iterate i _ last replies => Calm { w with replies } ∧ EndsWell (w.client i) last
  | .clock _ | .openOther | .closeOther _ | .new .. => True

instance (w : World n) : Decidable (Calm w) := inferInstanceAs (Decidable (∀ _, _))

instance (w : World n) : (event : CtlEvent n) → Decidable (Manageable w event)
  | .service .. => inferInstanceAs (Decidable (_ ∧ _))
  | .accept .. => inferInstanceAs (Decidable (_ → _))
  | .read i reply garbage => inferInstanceAs (Decidable (ReadsWell (w.client i) reply garbage))
  | .notify _ replies | .flush _ replies | .output _ replies => inferInstanceAs (Decidable (Calm { w with replies }))
  | .iterate i _ last replies => inferInstanceAs (Decidable (Calm { w with replies } ∧ EndsWell (w.client i) last))
  | .clock _ | .openOther | .closeOther _ | .new .. => isTrue trivial

theorem ctlProgram_owned (owned : Owned w) (event : CtlEvent n) (manageable : Manageable w event)
    (served : ¬ NoController w event) : Ends (ctlProgram event) w fun _ w' => Owned w' := by
  have given : ∀ replies, Calm { w with replies } → Safe { w with replies } :=
    fun _ calm => ⟨owned.aside rfl rfl rfl, calm⟩
  cases event with
  | clock now => exact ends_modify.mpr (owned.aside rfl rfl rfl)
  | openOther =>
    apply ends_modify.mpr
    exact owned.congr (fun _ => rfl) (fun _ => rfl) (fun _ => rfl) (fun _ => rfl)
      (owned.owned.elsewhere (holder_openFd w .other) (fun _ held => by cases (lowestFree_free w).symm.trans held) (by rintro _ ⟨⟩) rfl)
  | closeOther fd =>
    simp only [ctlProgram, ends_modify]
    split
    · rename_i held
      exact owned.drop fun j other => by cases held.symm.trans other
    · exact owned
  | new recvFd sendFd isSocket nonblock append =>
    simp only [ctlProgram, ends_bind, ends_get, ends_ite, ends_pure]
    split
    · rename_i given
      rw [Bool.and_eq_true] at given
      exact ctlNew_owned owned given.1 given.2 isSocket nonblock append
    · exact owned
  | service wantRead wantWrite socketpair nonblock fork =>
    obtain ⟨rfl, rfl⟩ := manageable
    simp only [ctlProgram, ends_ite, ends_pure]
    split
    · rename_i wanted
      have free : ∃ i, (w.client i).stateFn = none := by
        by_contra none
        exact served ⟨wanted, fun i free => none ⟨i, free⟩⟩
      exact svcControlSocket_owned owned wantRead wantWrite fork free
    · exact owned
  | accept accepts nonblock => exact controlSocketRun_owned owned manageable
  | notify msg replies =>
    simp only [ctlProgram, ends_bind, ends_modify]
    exact (ctlWrite_spec none msg _).mono fun _ _ written => (written.sends.safe (given replies manageable)).1
  | read i reply garbage =>
    simp only [ctlProgram, ends_bind, ends_get, ends_ite, ends_pure]
    split
    · rename_i allocated
      exact ctlReadMore_owned owned (Option.isSome_iff_ne_none.mp allocated) manageable
    · exact owned
  | flush i replies =>
    have safe := given replies manageable
    simp only [ctlProgram, ends_bind, ends_get, ends_ite, ends_modify, ends_pure]
    split
    · rename_i connected
      rw [Bool.and_eq_true] at connected
      have allocated : (({ w with replies } : World n).client i).stateFn ≠ none :=
        Option.isSome_iff_ne_none.mp connected.1
      exact (ctlFlushOutbuf_spec allocated).mono fun _ _ flushed => (flushed.steps.sends.safe safe).1
    · exact safe.1
  | iterate i input last replies =>
    simp only [ctlProgram, ends_bind, ends_modify]
    exact iterate_owned (given replies manageable.1) manageable.2 input
  | output i replies =>
    simp only [ctlProgram, ends_bind, ends_modify]
    exact outputPhase_owned (given replies manageable)

theorem ctlStep_owned (owned : Owned w) {event : CtlEvent n} (manageable : Manageable w event)
    (step : ctlStep w event = some w') : Owned w' := by
  by_cases full : NoController w event
  · rw [ctlStep_noController full] at step
    cases step
  · obtain ⟨_, w'', run, owned⟩ := ctlProgram_owned owned event manageable full
    rw [ctlStep, run] at step
    obtain rfl := Option.some.inj step
    exact owned

theorem owned_init (standard : ℕ) : Owned (World.init n standard) := by
  have free : ∀ fd i, (World.init n standard).holder fd ≠ some (.controller i) := by
    intro fd i
    simp only [World.init, World.holder, List.getElem?_replicate]
    split_ifs <;> simp
  have nothing : ∀ i, handlesIn (World.init n standard) i = [] := fun _ => if_pos (.inl rfl)
  refine ⟨⟨fun fd i => ?_, fun i => ?_, by rintro _ ⟨⟩⟩, fun i => ⟨?_, by rintro ⟨⟩, by rintro ⟨⟩⟩⟩
  · simp [nothing, free]
  · simp [nothing]
  · simp [World.init]

end Machine

end DaemonProxy.Proofs
