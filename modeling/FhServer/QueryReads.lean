import FhServer.FormTree

namespace FhServer.QueryReads
open List

-- queryParams has the qcount entries that are in use.
structure QueryCtx where
  queryString : Bytes
  queryParsed : Bool := false
  queryParams : List (Bytes × Bytes) := []

-- The others call Query (QueryBool, QueryInt, QueryFloat) or read the query string alone (QueryBytes, QueryParser).
inductive QueryCall where
  | query (name : Bytes)
  | queryMultiple (name : Bytes)
  | other

-- rawQueryKeyEqual compares the key as it is written.
def peekQuery (query name : Bytes) : Option Bytes := ((segments query).find? fun pair => (rawPair pair).1 = name).map fun pair => (decodedPair pair).2

def pairs (query : Bytes) : List (Bytes × Bytes) := (segments query).map decodedPair

def values (name : Bytes) (params : List (Bytes × Bytes)) : List Bytes := (params.filter (·.1 = name)).map Prod.snd

namespace QueryCtx
variable (c : QueryCtx) (name : Bytes)

def query (fallback : Bytes) : Bytes := (if c.queryParsed then c.queryParams.lookup name else peekQuery c.queryString name).getD fallback

def parseQuery : QueryCtx := {c with queryParsed := true, queryParams := c.queryParams ++ pairs c.queryString}

def queryMultiple : QueryCtx × List Bytes := (c.parseQuery,values name c.parseQuery.queryParams)

def called : QueryCall → QueryCtx
  | .queryMultiple name => (c.queryMultiple name).1
  | .query _ | .other => c

end QueryCtx
open QueryCtx

end FhServer.QueryReads
