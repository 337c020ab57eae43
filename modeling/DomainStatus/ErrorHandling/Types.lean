/-!
# Kinds of errors

The kinds that failures are filed under, after `src/error_handling/types.rs`.
-/

namespace DomainStatus.ErrorHandling

/-- The kinds of errors that are stored with a failure, those of requests first. -/
inductive ErrorType where
  | httpRequestBuilderError
  | httpRequestRedirectError
  | httpRequestStatusError
  | httpRequestTimeoutError
  | httpRequestRequestError
  | httpRequestConnectError
  | httpRequestBodyError
  | httpRequestDecodeError
  | httpRequestOtherError
  | httpRequestTooManyRequests
  | httpRequestBotDetectionError
  | httpRequestBadRequest
  | httpRequestUnauthorized
  | httpRequestNotFound
  | httpRequestInternalServerError
  | httpRequestBadGateway
  | httpRequestServiceUnavailable
  | httpRequestGatewayTimeout
  | processUrlTimeout
  | scanCancelled
  | dnsForwardLookupError
  | dnsNsLookupError
  | dnsTxtLookupError
  | dnsMxLookupError
  | dnsCnameLookupError
  | dnsAaaaLookupError
  | dnsCaaLookupError
  | tlsCertificateError
  | technologyDetectionError
  | satelliteInsertError
  deriving DecidableEq

/-- The name that the database stores. -/
def ErrorType.asStr : ErrorType → String
  | httpRequestBuilderError => "HTTP request builder error"
  | httpRequestRedirectError => "HTTP request redirect error"
  | httpRequestStatusError => "HTTP request status error"
  | httpRequestTimeoutError => "HTTP request timeout error"
  | httpRequestRequestError => "HTTP request error"
  | httpRequestConnectError => "HTTP request connect error"
  | httpRequestBodyError => "HTTP request body error"
  | httpRequestDecodeError => "HTTP request decode error"
  | httpRequestOtherError => "HTTP request other error"
  | httpRequestTooManyRequests => "Too many requests"
  | httpRequestBotDetectionError => "Bot detection (403 Forbidden)"
  | httpRequestBadRequest => "Bad Request (400)"
  | httpRequestUnauthorized => "Unauthorized (401)"
  | httpRequestNotFound => "Not Found (404)"
  | httpRequestInternalServerError => "Internal Server Error (500)"
  | httpRequestBadGateway => "Bad Gateway (502)"
  | httpRequestServiceUnavailable => "Service Unavailable (503)"
  | httpRequestGatewayTimeout => "Gateway Timeout (504)"
  | processUrlTimeout => "Process URL timeout"
  | scanCancelled => "Scan cancelled"
  | dnsForwardLookupError => "DNS forward lookup error"
  | dnsNsLookupError => "DNS NS lookup error"
  | dnsTxtLookupError => "DNS TXT lookup error"
  | dnsMxLookupError => "DNS MX lookup error"
  | dnsCnameLookupError => "DNS CNAME lookup error"
  | dnsAaaaLookupError => "DNS AAAA lookup error"
  | dnsCaaLookupError => "DNS CAA lookup error"
  | tlsCertificateError => "TLS certificate error"
  | technologyDetectionError => "Technology detection error"
  | satelliteInsertError => "Satellite insert error"

end DomainStatus.ErrorHandling
