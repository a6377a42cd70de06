import Cberl.Nif.Functions

/-!
# Which requests a NIF admits

A request has a documented reading when its argument is a proper list of
tuples of the operation's layout (for `http` one such tuple) with every field
in range.  A NIF admits a request exactly when the mended request has a
reading, and then it posts that reading, so a request is treated as documented
exactly when mending it creates no reading that it did not have.
-/

namespace Cberl

variable [LcbTypes]

/-- `request` carries `operation` in the documented format. -/
def Request.Denotes : Request → Operation → Prop
  | .get requests, operation =>
      ∃ rows, BatchDenotes GetRequest.Raw rows requests ∧
        operation = .get (rows.map GetRequest.ofRaw)
  | .store requests, operation =>
      ∃ rows, BatchDenotes StoreRequest.Raw rows requests ∧
        operation = .store (rows.map StoreRequest.ofRaw)
  | .remove requests, operation =>
      ∃ rows, BatchDenotes RemoveRequest.Raw rows requests ∧
        operation = .remove (rows.map RemoveRequest.ofRaw)
  | .arithmetic requests, operation =>
      ∃ rows, BatchDenotes ArithmeticRequest.Raw rows requests ∧
        operation = .arithmetic (rows.map ArithmeticRequest.ofRaw)
  | .http request, operation =>
      ∃ row, TupleDenotes HttpRequest.Raw row request ∧
        operation = .http (HttpRequest.ofRaw row)
  | .durability requests options, operation =>
      ∃ rows, BatchDenotes DurabilityRequest.Raw rows requests ∧
        ∃ row, TupleDenotes DurabilityRequestOptions.Raw row options ∧
          operation = .durability (rows.map DurabilityRequest.ofRaw)
            (DurabilityRequestOptions.ofRaw row)

/-- The request with every atom `'true\0'` in a field replaced by `true`. -/
def Request.mend : Request → Request
  | .get requests => .get (mendBatch requests)
  | .store requests => .store (mendBatch requests)
  | .remove requests => .remove (mendBatch requests)
  | .arithmetic requests => .arithmetic (mendBatch requests)
  | .http request => .http (mendTuple request)
  | .durability requests options =>
      .durability (mendBatch requests) (mendTuple options)

theorem Request.Denotes.mend {request : Request} {operation : Operation}
    (h : request.Denotes operation) : request.mend.Denotes operation := by
  cases request with
  | http request =>
      obtain ⟨row, hrow, hoperation⟩ := h
      exact ⟨row, hrow.mend, hoperation⟩
  | durability requests options =>
      obtain ⟨rows, hrows, row, hrow, hoperation⟩ := h
      exact ⟨rows, hrows.mend, row, hrow.mend, hoperation⟩
  | _ =>
      obtain ⟨rows, hrows, hoperation⟩ := h
      exact ⟨rows, hrows.mend, hoperation⟩

/-- The operation a NIF converts a request to is the reading of the mended
request. -/
theorem Request.operation_eq_some_iff
    {request : Request} {operation : Operation} :
    request.operation = some operation ↔ request.mend.Denotes operation := by
  cases request with
  | http request => exact getTuple_map_eq_some_iff
  | durability requests options =>
      rw [Request.operation, Option.bind_eq_some_iff]
      exact exists_congr fun rows =>
        and_congr (getVector_eq_some_iff _) getTuple_map_eq_some_iff
  | _ => exact getVector_map_eq_some_iff

theorem Request.Denotes.operation_eq {request : Request} {operation : Operation}
    (h : request.Denotes operation) : request.operation = some operation :=
  Request.operation_eq_some_iff.mpr h.mend

/-- The NIF treats `request` as documented: it posts exactly the job of its
reading and returns the one id, or, when there is no reading, raises `badarg`
and posts nothing. -/
structure AdmitsExactly (request : Request) : Prop where
  posts : ∀ operation, request.Denotes operation →
    ∀ (ctx : NifCTX) (connection : ℕ) (queue : List Job),
      (applyNif ctx connection request).run.run queue =
        (.ok ctx.reqId, queue ++ [⟨ctx, connection, operation⟩])
  rejects : (∀ operation, ¬ request.Denotes operation) →
    ∀ (ctx : NifCTX) (connection : ℕ) (queue : List Job),
      (applyNif ctx connection request).run.run queue = (.error .badarg, queue)

/-- Where mending creates no reading, a request without one posts nothing. -/
theorem Request.operation_eq_none_of_mend {request : Request}
    (hmend : ∀ operation, request.mend.Denotes operation →
      request.Denotes operation)
    (hno : ∀ operation, ¬ request.Denotes operation) :
    request.operation = none := by
  rw [Option.eq_none_iff_forall_ne_some]
  intro operation hoperation
  exact hno operation
    (hmend operation (Request.operation_eq_some_iff.mp hoperation))

theorem admitsExactly_iff (request : Request) :
    AdmitsExactly request ↔
      ∀ operation, request.mend.Denotes operation →
        request.Denotes operation := by
  constructor
  · intro hexact operation hmend
    have hoperation := Request.operation_eq_some_iff.mpr hmend
    by_cases hreading : ∃ operation', request.Denotes operation'
    · obtain ⟨operation', hoperation'⟩ := hreading
      have hsome := hoperation'.operation_eq
      rw [hoperation] at hsome
      rwa [Option.some.inj hsome]
    · have hrun := hexact.rejects (not_exists.mp hreading) ⟨0, 0, 0, 0⟩ 0 []
      rw [applyNif_run, hoperation] at hrun
      cases hrun
  · intro hmend
    refine ⟨?_, ?_⟩
    · intro operation hreading ctx connection queue
      rw [applyNif_run, hreading.operation_eq]
    · intro hno ctx connection queue
      rw [applyNif_run, Request.operation_eq_none_of_mend hmend hno]

end Cberl
