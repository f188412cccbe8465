import Aiwc.Proof.Counting

namespace AiwcProof

open AiwcModel TransferLog

def nextLaunch : List Event → Option String
  | [] => none
  | .kernelBegin name :: _ => some name
  | _ :: rest => nextLaunch rest

/-- The kernel each host-to-device copy of `events` is charged to: the first kernel launched
    after it, or else the last one launched before it (`last` before `events`). -/
def hostToDeviceLabels (last : String) : List Event → List String
  | [] => []
  | .hostMemoryStore :: rest => (nextLaunch rest).getD last :: hostToDeviceLabels last rest
  | .kernelBegin name :: rest => hostToDeviceLabels name rest
  | _ :: rest => hostToDeviceLabels last rest

/-- The kernel each device-to-host copy of `events` is charged to: the last one launched
    before it. -/
def deviceToHostLabels (last : String) : List Event → List String
  | [] => []
  | .hostMemoryLoad :: rest => last :: deviceToHostLabels last rest
  | .kernelBegin name :: rest => deviceToHostLabels name rest
  | _ :: rest => deviceToHostLabels last rest

theorem endOfList_of_pos {size : Nat} (nonempty : 0 < size) (fits : size ≤ 2 ^ 31) :
    endOfList size = (size : Int) - 1 := by
  have below : (size + 2 ^ 64 - 1) % 2 ^ 64 = size - 1 := by omega
  simp only [endOfList, toInt, below]
  omega

theorem set_last_old (settled : List String) (r i : Nat) (old name : String) :
    (settled ++ List.replicate (r + 1) old ++ List.replicate i name).set (settled.length + r) name =
      settled ++ List.replicate r old ++ List.replicate (i + 1) name := by
  rw [List.replicate_succ', List.replicate_succ, List.append_assoc, List.append_assoc,
    ← List.append_assoc settled, List.set_append_right _ _ (by simp)]
  simp

theorem relabel_replicate (name old : String) (settled : List String) (r i : Nat)
    (fits : settled.length + r + i ≤ 2 ^ 31) :
    relabel name ((settled.length + r + i : Nat) - 1 : Int) i r
      (settled ++ List.replicate r old ++ List.replicate i name) =
      .ok (settled ++ List.replicate (r + i) name) := by
  induction r generalizing i with
  | zero => simp [relabel]
  | succ r ih =>
    have index : ((settled.length + (r + 1) + i : Nat) - 1 : Int) - i = (settled.length + r : Nat) := by
      omega
    have inside : (0 : Int) ≤ (settled.length + r : Nat) ∧ ((settled.length + r : Nat) : Int) <
        (settled ++ List.replicate (r + 1) old ++ List.replicate i name).length := by
      simp only [List.length_append, List.length_replicate]
      omega
    have last : ((settled.length + (r + 1) + i : Nat) - 1 : Int) =
        ((settled.length + r + (i + 1) : Nat) - 1 : Int) := by
      congr 2
      omega
    rw [relabel, index]
    simp only [assign, inside, and_self, if_true, Int.toNat_ofNat, bind, Except.bind, set_last_old]
    rw [last, ih (i + 1) (by omega), Nat.add_right_comm r 1 i, Nat.add_assoc]

theorem kernelBegin_relabels (log : TransferLog) (name : String) (settled : List String) (pending : Nat)
    (shape : log.hostToDeviceCopy = settled ++ List.replicate pending log.lastKernelName)
    (count : log.numberOfHostToDeviceCopiesBeforeKernelNamed = pending)
    (fits : settled.length + pending ≤ 2 ^ 31) :
    log.kernelBegin name = .ok { log with
      lastKernelName := name
      hostToDeviceCopy := settled ++ List.replicate pending name
      numberOfHostToDeviceCopiesBeforeKernelNamed := 0 } := by
  cases pending with
  | zero =>
    simp only [List.replicate_zero, List.append_nil] at shape
    simp [TransferLog.kernelBegin, count, relabel, shape, bind, Except.bind, pure, Except.pure]
  | succ pending =>
    have relabelled := relabel_replicate name log.lastKernelName settled (pending + 1) 0 (by omega)
    simp only [List.replicate_zero, List.append_nil, Nat.add_zero, ← shape] at relabelled
    have last : endOfList log.hostToDeviceCopy.length = ((settled.length + (pending + 1) : Nat) : Int) - 1 := by
      rw [shape, List.length_append, List.length_replicate]
      exact endOfList_of_pos (by omega) fits
    simp only [TransferLog.kernelBegin, count, last, relabelled, bind, Except.bind, pure, Except.pure]

section Steps

variable {spaces : AddressSpaces} {system next : System}

theorem step_kernelBegin_transfers {name : String} (ok : system.step spaces (.kernelBegin name) = .ok next) :
    system.plugin.transfers.kernelBegin name = .ok next.plugin.transfers := by
  simp only [System.step, Plugin.kernelBegin] at ok
  cases relabelled : system.plugin.transfers.kernelBegin name <;>
    simp [relabelled, bind, Except.bind, pure, Except.pure] at ok
  rw [← ok]

theorem step_worker_transfers {w : Nat} {event : WorkerEvent} (ok : system.step spaces (.worker w event) = .ok next) :
    next.plugin.transfers = system.plugin.transfers := by
  simp only [System.step] at ok
  cases stepped : (system.workers w).step spaces event <;>
    simp [stepped, bind, Except.bind, pure, Except.pure] at ok
  rw [← ok]

theorem step_kernelEnd_transfers {name : String} (ok : system.step spaces (.kernelEnd name) = .ok next) :
    next.plugin.transfers = system.plugin.transfers := by
  simp only [System.step] at ok
  cases counted : kernelEndCounts system.plugin.aggregate <;>
    cases histories : branchHistories system.plugin.aggregate <;>
    simp [counted, histories, bind, Except.bind, pure, Except.pure] at ok
  rw [← ok]

end Steps

theorem run_transfers (spaces : AddressSpaces) (rest : List Event) (system after : System)
    (settled : List String)
    (shape : system.plugin.transfers.hostToDeviceCopy = settled ++
      List.replicate system.plugin.transfers.numberOfHostToDeviceCopiesBeforeKernelNamed
        system.plugin.transfers.lastKernelName)
    (fits : settled.length + system.plugin.transfers.numberOfHostToDeviceCopiesBeforeKernelNamed +
      rest.countP (· = .hostMemoryStore) ≤ 2 ^ 31)
    (ran : system.run spaces rest = .ok after) :
    after.plugin.transfers.hostToDeviceCopy = settled ++
      List.replicate system.plugin.transfers.numberOfHostToDeviceCopiesBeforeKernelNamed
        ((nextLaunch rest).getD system.plugin.transfers.lastKernelName) ++
      hostToDeviceLabels system.plugin.transfers.lastKernelName rest ∧
    after.plugin.transfers.deviceToHostCopy = system.plugin.transfers.deviceToHostCopy ++
      deviceToHostLabels system.plugin.transfers.lastKernelName rest := by
  induction rest generalizing system settled with
  | nil =>
    cases ran
    simp [nextLaunch, hostToDeviceLabels, deviceToHostLabels, shape]
  | cons event rest ih =>
    obtain ⟨next, stepped, continued⟩ := run_cons_ok ran
    cases event with
    | kernelBegin name =>
      have relabelled := step_kernelBegin_transfers stepped
      rw [kernelBegin_relabels _ name settled _ shape rfl (by simp at fits; omega), Except.ok.injEq]
        at relabelled
      have after_ := ih next (settled ++ List.replicate
        system.plugin.transfers.numberOfHostToDeviceCopiesBeforeKernelNamed name)
        (by simp [← relabelled]) (by simp [← relabelled] at fits ⊢; omega) continued
      simpa [← relabelled, nextLaunch, hostToDeviceLabels, deviceToHostLabels] using after_
    | kernelEnd _ | worker _ _ =>
      have same : next.plugin.transfers = system.plugin.transfers := by
        first | exact step_kernelEnd_transfers stepped | exact step_worker_transfers stepped
      have after_ := ih next settled (by rw [same]; exact shape) (by simpa [same] using fits) continued
      simpa [same, nextLaunch, hostToDeviceLabels, deviceToHostLabels] using after_
    | hostMemoryLoad =>
      cases stepped
      have after_ := ih _ settled (by exact shape) (by simpa using fits) continued
      simpa [TransferLog.hostMemoryLoad, nextLaunch, hostToDeviceLabels, deviceToHostLabels] using after_
    | hostMemoryStore =>
      cases stepped
      have after_ := ih _ settled
        (by simp [TransferLog.hostMemoryStore, shape, List.replicate_succ'])
        (by simp [TransferLog.hostMemoryStore] at fits ⊢; omega) continued
      simpa [TransferLog.hostMemoryStore, nextLaunch, hostToDeviceLabels, deviceToHostLabels,
        List.replicate_succ'] using after_

/-- From the plugin's construction, while at most 2^31 host-to-device copies are made, the
    two transfer logs hold one entry per copy, in order, labelled by `hostToDeviceLabels` and
    `deviceToHostLabels`. -/
theorem transfer_labels (spaces : AddressSpaces) (events : List Event) (after : System)
    (fits : events.countP (· = .hostMemoryStore) ≤ 2 ^ 31)
    (ran : System.initial.run spaces events = .ok after) :
    after.plugin.transfers.hostToDeviceCopy = hostToDeviceLabels "" events ∧
      after.plugin.transfers.deviceToHostCopy = deviceToHostLabels "" events := by
  simpa [System.initial, Plugin.initial, TransferLog.initial] using
    run_transfers spaces events System.initial after [] rfl
      (by simpa [System.initial, Plugin.initial, TransferLog.initial] using fits) ran

theorem transfer_labels_two_kernels :
    let events : List Event := [.hostMemoryStore, .kernelBegin "K1", .hostMemoryLoad, .hostMemoryStore,
      .kernelBegin "K2", .hostMemoryLoad]
    events.countP (· = .hostMemoryStore) ≤ 2 ^ 31 ∧ ∃ after, System.initial.run ⟨0, 1, 2, 3⟩ events = .ok after ∧
      after.plugin.transfers.hostToDeviceCopy = hostToDeviceLabels "" events ∧
      after.plugin.transfers.deviceToHostCopy = deviceToHostLabels "" events := by
  intro events
  obtain ⟨after, ran⟩ : ∃ after, System.initial.run ⟨0, 1, 2, 3⟩ events = .ok after := ⟨_, rfl⟩
  exact ⟨by decide, after, ran, transfer_labels _ events after (by decide) ran⟩

theorem run_append (spaces : AddressSpaces) (first second : List Event) (system : System) :
    system.run spaces (first ++ second) = (system.run spaces first).bind (·.run spaces second) := by
  induction first generalizing system with
  | nil => rfl
  | cons event rest ih =>
    simp only [List.cons_append, System.run, bind, Except.bind]
    cases system.step spaces event with
    | error fault => rfl
    | ok next => exact ih next

theorem run_stores (spaces : AddressSpaces) (n : Nat) (system : System) :
    system.run spaces (List.replicate n .hostMemoryStore) = .ok { system with
      plugin := { system.plugin with transfers := { system.plugin.transfers with
        hostToDeviceCopy := system.plugin.transfers.hostToDeviceCopy ++
          List.replicate n system.plugin.transfers.lastKernelName
        numberOfHostToDeviceCopiesBeforeKernelNamed :=
          system.plugin.transfers.numberOfHostToDeviceCopiesBeforeKernelNamed + n } } } := by
  induction n generalizing system with
  | zero => simp [System.run]
  | succ n ih =>
    rw [List.replicate_succ]
    simp only [System.run, System.step, bind, Except.bind, ih, TransferLog.hostMemoryStore,
      List.append_assoc, List.replicate_succ, List.cons_append, List.nil_append, Nat.add_assoc,
      Nat.add_comm 1 n]

theorem kernelBegin_negative_end (log : TransferLog) (name : String)
    (pending : 0 < log.numberOfHostToDeviceCopiesBeforeKernelNamed)
    (negative : endOfList log.hostToDeviceCopy.length < 0) :
    log.kernelBegin name = .error (.outOfRange (endOfList log.hostToDeviceCopy.length)) := by
  obtain ⟨p, count⟩ : ∃ p, log.numberOfHostToDeviceCopiesBeforeKernelNamed = p + 1 :=
    ⟨_, (Nat.succ_pred_eq_of_pos pending).symm⟩
  have outside : ¬(0 ≤ endOfList log.hostToDeviceCopy.length - ((0 : Nat) : Int) ∧
      endOfList log.hostToDeviceCopy.length - ((0 : Nat) : Int) < log.hostToDeviceCopy.length) := by
    omega
  simp only [TransferLog.kernelBegin, count]
  rw [relabel]
  rw [assign, if_neg outside]
  exact congrArg (fun index : Int => (Except.error (Fault.outOfRange index) : Except Fault TransferLog))
    (Int.sub_zero _)

theorem stores_then_kernelBegin (spaces : AddressSpaces) (n : Nat) (name : String) (pending : 0 < n)
    (negative : endOfList n < 0) :
    System.initial.run spaces (List.replicate n .hostMemoryStore ++ [.kernelBegin name]) =
      .error (.outOfRange (endOfList n)) := by
  rw [run_append, run_stores]
  simp only [Except.bind, System.run, System.step, Plugin.kernelBegin]
  rw [kernelBegin_negative_end]
  · simp [System.initial, Plugin.initial, TransferLog.initial, bind, Except.bind]
  · simpa [System.initial, Plugin.initial, TransferLog.initial] using pending
  · simpa [System.initial, Plugin.initial, TransferLog.initial] using negative

/-- 2^31 + 1 host-to-device copies before the first launch: `end_of_list` does not fit an `int`,
    and the relabelling loop's first write is at index -2^31. -/
theorem relabel_outside_copies (spaces : AddressSpaces) :
    System.initial.run spaces (List.replicate (2 ^ 31 + 1) .hostMemoryStore ++ [.kernelBegin "K"]) =
      .error (.outOfRange (-2 ^ 31)) := by
  have last : endOfList (2 ^ 31 + 1) = -2 ^ 31 := by decide
  rw [stores_then_kernelBegin spaces _ "K" (by omega) (by rw [last]; decide), last]

theorem mem_destutter_ne {names : List String} {first name : String} (member : name ∈ first :: names) :
    name ∈ names.destutter' (· ≠ ·) first := by
  induction names generalizing first with
  | nil => simpa [List.destutter'_nil] using member
  | cons next rest ih =>
    rw [List.destutter'_cons]
    split
    · rcases List.mem_cons.mp member with rfl | member
      · exact List.mem_cons_self _ _
      · exact List.mem_cons_of_mem _ (ih member)
    · rename_i same
      rw [not_not] at same
      subst next
      exact ih (by simpa using member)

theorem mem_unique {names : List String} {name : String} : name ∈ unique names ↔ name ∈ names := by
  refine ⟨fun kept => (List.destutter_sublist _ names).subset kept, fun member => ?_⟩
  cases names with
  | nil => cases member
  | cons first rest => exact mem_destutter_ne member

/-- When each kernel's copies are adjacent in the log, so that `std::unique` leaves every name
    once, the rows are the distinct names and their counts add up to the log's length. -/
theorem transferRows_of_nodup (names : List String) (distinct : (unique names).Nodup) :
    ((transferRows names).map Prod.fst).Perm names.dedup ∧
      ((transferRows names).map Prod.snd).sum = names.length := by
  have same : (unique names).Perm names.dedup :=
    (List.perm_ext_iff_of_nodup distinct (List.nodup_dedup names)).mpr fun name => by
      rw [mem_unique, List.mem_dedup]
  refine ⟨by simpa [transferRows, Function.comp_def] using same, ?_⟩
  rw [← List.sum_map_count_dedup_eq_length]
  simpa [transferRows] using (same.map fun name => names.count name).sum_eq

theorem transferRows_of_nodup_adjacent :
    (unique ["K1", "K1", "K2"]).Nodup ∧
      ((transferRows ["K1", "K1", "K2"]).map Prod.fst).Perm ["K1", "K1", "K2"].dedup ∧
      ((transferRows ["K1", "K1", "K2"]).map Prod.snd).sum = ["K1", "K1", "K2"].length :=
  ⟨by decide, transferRows_of_nodup _ (by decide)⟩

/-- A program that launches K1, then K2, then K1 again and reads a buffer back after each: the
    destructor's file has two rows for K1, each with K1's full count. -/
theorem transfer_rows_repeat_kernel (spaces : AddressSpaces) :
    (System.initial.run spaces [.kernelBegin "K1", .hostMemoryLoad, .kernelBegin "K2", .hostMemoryLoad,
        .kernelBegin "K1", .hostMemoryLoad]).map (fun system => transferCsv system.plugin.transfers) =
      .ok ["metric,kernel,count", "transfer: device to host,K1,2", "transfer: device to host,K2,1",
        "transfer: device to host,K1,2"] := rfl

end AiwcProof
